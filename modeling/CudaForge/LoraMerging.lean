import CudaForge.LoraAgreement
import CudaForge.PythonBuiltins

/-!
# Merging an adapter

`LoRALinear` as it is trained, the plain layer into which `merge` turns it, and
the kernels that serve it. The training layer keeps its matrices as outputs by
inputs, the kernels take them as inputs by outputs.
-/

namespace CudaForge.LoraMerging

open PythonBuiltins LoraAgreement LoraKernels

variable {inFeatures outFeatures batch : ℕ} {K : Type} [Field K]

/-- `nn.Linear`. -/
structure Linear (inFeatures outFeatures : ℕ) (K : Type) where
  /-- The weight, outputs by inputs. -/
  weight : Matrix (Fin outFeatures) (Fin inFeatures) K
  /-- The bias, if there is one. -/
  bias : Option (Fin outFeatures → K)

/-- What the bias adds to a column. -/
def biasAt (bias : Option (Fin outFeatures → K)) (col : Fin outFeatures) : K :=
  (bias.map fun values => values col).getD 0

/-- `nn.Linear.forward`. -/
def Linear.forward (l : Linear inFeatures outFeatures K)
    (x : Matrix (Fin batch) (Fin inFeatures) K) : Matrix (Fin batch) (Fin outFeatures) K :=
  fun row col => (x*l.weight.transpose) row col+biasAt l.bias col

/-- `LoRALinear`. -/
structure LoRALinear (inFeatures outFeatures : ℕ) (K : Type) where
  /-- The rank of the update. -/
  rank : ℕ
  /-- `alpha / rank`. -/
  scaling : K
  /-- The frozen layer. -/
  base : Linear inFeatures outFeatures K
  /-- The first factor. -/
  loraA : Matrix (Fin rank) (Fin inFeatures) K
  /-- The second factor. -/
  loraB : Matrix (Fin outFeatures) (Fin rank) K

/-- The constructor; `kaiming` is what the initialisation draws for the first factor. -/
def LoRALinear.create (base : Linear inFeatures outFeatures K)
    (kaiming : (rank : ℕ) → Matrix (Fin rank) (Fin inFeatures) K) (rank alpha : ℤ) :
    Except PyError (LoRALinear inFeatures outFeatures K) :=
  if rank≤0 then .error (.valueError s!"rank must be positive, got {rank}")
  else if ((min inFeatures outFeatures : ℕ) : ℤ)<rank then
    .error (.valueError (s!"rank {rank} exceeds min(in_features, out_features) = "++
      s!"{min inFeatures outFeatures}; the update would not be low-rank"))
  else .ok ⟨rank.toNat,(alpha : K)/(rank : K),base,kaiming rank.toNat,0⟩

/-- `LoRALinear.forward`, with whatever the dropout leaves of the adapter's input; in
evaluation that is the input itself. -/
def LoRALinear.forward (l : LoRALinear inFeatures outFeatures K)
    (dropped x : Matrix (Fin batch) (Fin inFeatures) K) : Matrix (Fin batch) (Fin outFeatures) K :=
  l.base.forward x+l.scaling • (dropped*l.loraA.transpose*l.loraB.transpose)

/-- `LoRALinear.merged_weight`. -/
def LoRALinear.mergedWeight (l : LoRALinear inFeatures outFeatures K) :
    Matrix (Fin outFeatures) (Fin inFeatures) K := l.base.weight+l.scaling • (l.loraB*l.loraA)

/-- `LoRALinear.merge`. -/
def LoRALinear.merge (l : LoRALinear inFeatures outFeatures K) : Linear inFeatures outFeatures K :=
  ⟨l.mergedWeight,l.base.bias⟩

/-- What training makes of a layer: it changes the two factors and nothing else. -/
def LoRALinear.trained (l : LoRALinear inFeatures outFeatures K)
    (loraA : Matrix (Fin l.rank) (Fin inFeatures) K)
    (loraB : Matrix (Fin outFeatures) (Fin l.rank) K) : LoRALinear inFeatures outFeatures K :=
  ⟨l.rank,l.scaling,l.base,loraA,loraB⟩

/-- A new layer computes what its frozen layer computes, whatever was drawn for the
first factor and whatever the dropout drops. -/
theorem create_forward {base : Linear inFeatures outFeatures K}
    {kaiming : (rank : ℕ) → Matrix (Fin rank) (Fin inFeatures) K} {rank alpha : ℤ}
    {l : LoRALinear inFeatures outFeatures K} (h : LoRALinear.create base kaiming rank alpha=.ok l)
    (dropped x : Matrix (Fin batch) (Fin inFeatures) K) :
    (0<l.rank ∧ l.rank ≤ min inFeatures outFeatures ∧ l.base=base) ∧
      l.forward dropped x=base.forward x := by
  rw [LoRALinear.create] at h
  split at h
  · exact absurd h (by simp only [reduceCtorEq,not_false_eq_true])
  · split at h
    · exact absurd h (by simp only [reduceCtorEq,not_false_eq_true])
    · rw [←Except.ok.inj h]
      have hpos : 0<rank.toNat := by omega
      have hle : rank.toNat ≤ min inFeatures outFeatures := by omega
      refine ⟨⟨hpos,hle,rfl⟩,?_⟩
      simp only [LoRALinear.forward,Matrix.transpose_zero,Matrix.mul_zero,smul_zero,add_zero]

/-- The merged weight applies the update as well. -/
theorem mul_mergedWeight (l : LoRALinear inFeatures outFeatures K)
    (x : Matrix (Fin batch) (Fin inFeatures) K) :
    x*l.mergedWeight.transpose=
      x*l.base.weight.transpose+l.scaling • (x*l.loraA.transpose*l.loraB.transpose) := by
  rw [LoRALinear.mergedWeight,Matrix.transpose_add,Matrix.transpose_smul,Matrix.transpose_mul,
    Matrix.mul_add,Matrix.mul_smul,Matrix.mul_assoc]

/-- Merging changes nothing in evaluation. -/
theorem merge_forward (l : LoRALinear inFeatures outFeatures K)
    (x : Matrix (Fin batch) (Fin inFeatures) K) : l.merge.forward x=l.forward x x := by
  ext row col
  change (x*l.mergedWeight.transpose) row col+biasAt l.base.bias col=_
  rw [mul_mergedWeight]
  exact add_right_comm _ _ _

/-- The buffers that serve a layer: its matrices, inputs by outputs. -/
structure Serves (l : LoRALinear inFeatures outFeatures K) (w a b : ℕ → K) : Prop where
  /-- The frozen weight. -/
  weight : matrixOf inFeatures outFeatures w=l.base.weight.transpose
  /-- The first factor. -/
  loraA : matrixOf inFeatures l.rank a=l.loraA.transpose
  /-- The second factor. -/
  loraB : matrixOf l.rank outFeatures b=l.loraB.transpose

/-- A layer that was constructed and then trained, served from its buffers on the fused
or the unfused path by a device that takes its sizes and its shared memory, in whatever
order blocks and threads run: with the bias, the kernels compute what the merged layer
computes, which is what the layer computes in evaluation; and before training that was
what the frozen layer computes, whatever the dropout drops. -/
theorem served_merged {base : Linear inFeatures outFeatures K}
    {kaiming : (rank : ℕ) → Matrix (Fin rank) (Fin inFeatures) K} {rank alpha : ℤ}
    {l : LoRALinear inFeatures outFeatures K} (h : LoRALinear.create base kaiming rank alpha=.ok l)
    (loraA : Matrix (Fin l.rank) (Fin inFeatures) K)
    (loraB : Matrix (Fin outFeatures) (Fin l.rank) K) {w a b : ℕ → K}
    (hs : Serves (l.trained loraA loraB) w a b) (hbatch : 0<batch)
    (hbatch' : (batch : ℤ) ≤ maxGridY*kTile) (hin' : RoundsUp inFeatures)
    (hout' : RoundsUp outFeatures) (x y workspace : ℕ → K) {limit : ℕ} {variant : LoRAKernel}
    (hbudget : tileBytes≤limit) (hbudget' : fusable limit variant l.rank=true →
      tileBytes+fusedShared l.rank≤limit) (device : Device K) :
    ∃ outcome : Outcome K,
      launchLoraLinear limit device x w a b y (some workspace) batch inFeatures outFeatures
        l.rank l.scaling variant=.ok outcome ∧
      (∀ row col, matrixOf batch outFeatures outcome.y row col+biasAt base.bias col=
        (l.trained loraA loraB).merge.forward (matrixOf batch inFeatures x) row col) ∧
      (l.trained loraA loraB).merge.forward (matrixOf batch inFeatures x)=
        (l.trained loraA loraB).forward (matrixOf batch inFeatures x)
          (matrixOf batch inFeatures x) ∧
      ∀ dropped : Matrix (Fin batch) (Fin inFeatures) K,
        l.forward dropped (matrixOf batch inFeatures x)=
          base.forward (matrixOf batch inFeatures x) := by
  obtain ⟨⟨hpos,hle,hbase⟩,_⟩ := create_forward h (matrixOf batch inFeatures x)
    (matrixOf batch inFeatures x)
  have hsizes : Launchable batch inFeatures outFeatures l.rank := by
    refine ⟨by omega,by omega,by omega,by omega,hbatch',hin',hout',?_⟩
    rw [RoundsUp] at hin' ⊢
    omega
  have houtcome : ∃ outcome : Outcome K,
      launchLoraLinear limit device x w a b y (some workspace) batch inFeatures outFeatures
        l.rank l.scaling variant=.ok outcome ∧
      outcome.y=filled (batch*outFeatures)
        (loraElement x w a b inFeatures outFeatures l.rank l.scaling) y := by
    by_cases hf : fusable limit variant (l.rank : ℤ).toNat=true
    · obtain ⟨stored,_,he⟩ := fused_outcome device x w a b y hsizes l.scaling
        (some workspace) hf (hbudget' hf)
      exact ⟨_,he,rfl⟩
    · obtain ⟨frozen,adapter,summed,_,_,_,he⟩ := unfused_outcome device x w a b y hsizes
        l.scaling workspace (Bool.eq_false_of_not_eq_true hf) hbudget
      exact ⟨_,he,rfl⟩
  obtain ⟨outcome,hlaunch,hy⟩ := houtcome
  refine ⟨outcome,hlaunch,fun row col => ?_,merge_forward _ _,fun dropped =>
    (create_forward h dropped _).2⟩
  have hreference : matrixOf batch outFeatures outcome.y=
      (matrixOf batch inFeatures x)*l.base.weight.transpose+
        l.scaling • ((matrixOf batch inFeatures x)*loraA.transpose*loraB.transpose) := by
    rw [hy,matrixOf_loraElement,loraLinearReference]
    have hw : matrixOf inFeatures outFeatures w=l.base.weight.transpose := hs.weight
    have ha : matrixOf inFeatures l.rank a=loraA.transpose := hs.loraA
    have hb : matrixOf l.rank outFeatures b=loraB.transpose := hs.loraB
    rw [hw,ha,hb]
  rw [hreference,merge_forward,←hbase]
  exact (add_right_comm _ _ _)

/-- A layer of two inputs and three outputs, trained to rank one and served to four
rows. -/
theorem served_merged_one : ∃ (l : LoRALinear 2 3 ℚ) (outcome : Outcome ℚ),
    launchLoraLinear (K := ℚ) 49152 rowByRow Nat.cast (fun place => (place : ℚ)+1)
      (fun place => (place : ℚ)-7) (fun place => 3*(place : ℚ)) (fun _ => 5)
      (some (fun _ => 9)) ((4 : ℕ) : ℤ) ((2 : ℕ) : ℤ) ((3 : ℕ) : ℤ) l.rank l.scaling .fused=
        .ok outcome ∧
    ∀ dropped : Matrix (Fin 4) (Fin 2) ℚ,
      l.forward dropped (matrixOf 4 2 Nat.cast)=l.base.forward (matrixOf 4 2 Nat.cast) := by
  have hcreate : LoRALinear.create
      (⟨(matrixOf 2 3 fun place => (place : ℚ)+1).transpose,none⟩ : Linear 2 3 ℚ)
      (fun _ => fun _ _ => 2) 1 16=.ok ⟨1,((16 : ℤ) : ℚ)/((1 : ℤ) : ℚ),
        ⟨(matrixOf 2 3 fun place => (place : ℚ)+1).transpose,none⟩,fun _ _ => 2,0⟩ := rfl
  obtain ⟨outcome,hlaunch,_,_,hforward⟩ := served_merged hcreate
    (matrixOf 2 1 fun place => (place : ℚ)-7).transpose
    (matrixOf 1 3 fun place => 3*(place : ℚ)).transpose
    (w := fun place => (place : ℚ)+1) (a := fun place => (place : ℚ)-7)
    (b := fun place => 3*(place : ℚ)) ⟨rfl,rfl,rfl⟩ (show 0<4 by decide) (by decide)
    (by decide) (by decide) Nat.cast (fun _ => 5) (fun _ => 9)
    (show tileBytes ≤ 49152 by decide)
    (fun _ : fusable 49152 .fused 1=true => by decide) rowByRow
  exact ⟨_,outcome,hlaunch,hforward⟩

end CudaForge.LoraMerging
