import CudaForge.RunnerTables

/-!
# A model of one layer and its tokenizer

The least model the runner can drive: its cache keeps tokens as keys and
positions as values, and its next token depends on the weighted sum of what
the mask shows of them. The tokenizer has a token for each character and pads
a batch on the left. Both meet what is assumed of the real ones.
-/

namespace CudaForge.OneLayerModel

open BatchTensors StepwiseRunner RunnerTables

/-- One-hot logits over three tokens. -/
def layerLogits (history : History) : List ℚ :=
  (List.range 3).map (fun token =>
    if token=(history.map (fun entry => entry.1*(entry.2+1))).sum%3 then 1 else 0)

/-- Keys that are tokens and values that are positions. -/
def layerStores : Stores ℕ := fun history cells =>
  cells=[(history.map Prod.fst,history.map Prod.snd)]

/-- The output of the one-layer model for the cache it has filled. -/
def layerOutput (mask keys values : Tensor ℕ) : ModelOutput ℕ where
  logits := (shown mask keys values).map (fun history => [layerLogits history])
  pastKeyValues := {layers := [{keys := keys, values := values}]}

/-- New columns behind those of a cache. -/
def grownBy (past : Option (Tensor ℕ)) (new : Tensor ℕ) : Tensor ℕ :=
  match past with
  | some old => (old.beside new).getD new
  | none => new

/-- A one-layer model that keeps the tokens and positions themselves. -/
def layerModel (call : ModelCall ℕ) : ModelOutput ℕ :=
  let layer := call.pastKeyValues.bind (fun cache => cache.layers.head?)
  layerOutput call.attentionMask (grownBy (layer.map Layer.keys) call.inputIds)
    (grownBy (layer.map Layer.values) call.positionIds)

/-- The output of the one-layer model goes on from what its cache shows. -/
theorem layerOutput_continues {mask keys values : Tensor ℕ} (hkb : keys.batch=mask.batch)
    (hkw : keys.width=mask.width) (hvb : values.batch=mask.batch)
    (hvw : values.width=mask.width) :
    Continues layerStores layerLogits 1 (layerOutput mask keys values) mask
      (shown mask keys values) where
  logits := by
    rw [layerOutput,List.map_map]
    rfl
  cache := {
    depth_eq := rfl
    batch_eq := (length_shown hkb hvb).symm
    shaped := by
      intro layer hl
      rw [List.mem_singleton.mp hl]
      exact ⟨hkb,hkw,hvb,hvw⟩
    stored := by
      intro index history hh
      have hi : index < mask.batch :=
        length_shown hkb hvb ▸ (List.getElem?_eq_some_iff.mp hh).1
      rw [getElem?_shown hkb hvb hi] at hh
      obtain rfl := Option.some.inj hh
      have hlen : (keys.row index).length=(values.row index).length := by
        rw [Tensor.row_length (hkb.symm ▸ hi),Tensor.row_length (hvb.symm ▸ hi),hkw,hvw]
      rw [layerStores,←visible_map,←visible_map,List.map_fst_zip hlen.le,List.map_snd_zip hlen.ge]
      rfl}

/-- Columns behind those of a cache of the same batch. -/
theorem grownBy_eq {old new : Tensor ℕ} (h : old.batch=new.batch) :
    (grownBy (some old) new).batch=old.batch ∧
      (grownBy (some old) new).width=old.width+new.width ∧
      ∀ index<old.batch, (grownBy (some old) new).row index=old.row index++new.row index := by
  obtain ⟨grown,hg,hr,hw⟩ := Tensor.beside_eq h
  rw [grownBy,hg,Option.getD_some]
  refine ⟨?_,hw,fun index hi => Tensor.row_beside h hr hi⟩
  have hlen : old.rows.length=new.rows.length := h
  rw [Tensor.batch,hr,List.length_map,List.length_zip,←hlen,Nat.min_self]
  rfl

/-- What keys and values show of a history makes it up. -/
theorem layerStores_eq {mask keys values : List ℕ} {history : History}
    (hk : keys.length=values.length)
    (h : layerStores history [(visible mask keys,visible mask values)]) :
    history=visible mask (keys.zip values) := by
  have hpair := (List.cons.inj h).1
  have hkeys : (visible mask (keys.zip values)).map Prod.fst=visible mask keys := by
    rw [←visible_map,List.map_fst_zip hk.le]
  have hvalues : (visible mask (keys.zip values)).map Prod.snd=visible mask values := by
    rw [←visible_map,List.map_snd_zip hk.ge]
  rw [List.zip_of_prod (congrArg Prod.fst hpair).symm (congrArg Prod.snd hpair).symm,
    List.zip_of_prod hkeys hvalues]

/-- The one-layer model reads histories. -/
theorem layerModel_reads : ReadsHistory layerModel layerStores layerLogits 1 3 where
  depth_pos := Nat.zero_lt_one
  vocabulary_pos := by decide
  vocabulary_eq _ := by rw [layerLogits,List.length_map,List.length_range]
  fresh := by
    intro call hpast hw
    rw [layerModel,hpast]
    exact layerOutput_continues hw.inputs_batch hw.inputs_width hw.positions_batch
      hw.positions_width
  extended := by
    intro call cache hpast old new before hbeside hstored hw
    obtain ⟨layer,hlayer⟩ := List.length_eq_one_iff.mp hstored.depth_eq
    have hs := hstored.shaped layer (hlayer ▸ List.mem_singleton_self layer)
    have hb : old.batch=new.batch := by
      by_contra hne
      rw [Tensor.beside,if_neg hne] at hbeside
      exact absurd hbeside.symm (Option.some_ne_none _)
    obtain ⟨grown,hg,hgr,hgw⟩ := Tensor.beside_eq hb
    have hmask : call.attentionMask=grown := Option.some.inj (hbeside.symm.trans hg)
    have hmb : grown.batch=old.batch := by
      have hlen : old.rows.length=new.rows.length := hb
      rw [Tensor.batch,hgr,List.length_map,List.length_zip,←hlen,Nat.min_self]
      rfl
    obtain ⟨hkb,hkw,hkr⟩ := grownBy_eq (hs.keys_batch.trans (hb.trans hw.inputs_batch.symm))
    obtain ⟨hvb,hvw,hvr⟩ :=
      grownBy_eq (hs.values_batch.trans (hb.trans hw.positions_batch.symm))
    rw [hs.keys_batch] at hkb hkr
    rw [hs.values_batch] at hvb hvr
    rw [hs.keys_width,hw.inputs_width,←hgw] at hkw
    rw [hs.values_width,hw.positions_width,←hgw] at hvw
    have hcontinues := layerOutput_continues (hkb.trans hmb.symm) hkw (hvb.trans hmb.symm) hvw
    have hshown : shown grown (grownBy (some layer.keys) call.inputIds)
        (grownBy (some layer.values) call.positionIds)=
        (before.zip (shown new call.inputIds call.positionIds)).map
          (fun history => history.1++history.2) := by
      have hleft := length_shown (hkb.trans hmb.symm) (hvb.trans hmb.symm)
      have hright := length_shown hw.inputs_batch hw.positions_batch
      refine List.ext_getElem? ?_
      intro index
      by_cases hi : index<old.batch
      · have hni : index<new.batch := hi.trans_eq hb
        have hbi : index<before.length := hi.trans_eq hstored.batch_eq
        have hcell := hstored.stored index _ (List.getElem?_eq_getElem hbi)
        rw [cacheRow,hlayer,List.map_singleton] at hcell
        have hlen : (layer.keys.row index).length=(layer.values.row index).length := by
          rw [Tensor.row_length (hi.trans_eq hs.keys_batch.symm),hs.keys_width,
            Tensor.row_length (hi.trans_eq hs.values_batch.symm),hs.values_width]
        have hrow : (old.row index).length=
            ((layer.keys.row index).zip (layer.values.row index)).length := by
          rw [List.length_zip,←hlen,Nat.min_self,Tensor.row_length hi,
            Tensor.row_length (hi.trans_eq hs.keys_batch.symm),hs.keys_width]
        have hbefore : before[index]?=some
            (visible (old.row index) ((layer.keys.row index).zip (layer.values.row index))) := by
          rw [List.getElem?_eq_getElem hbi,layerStores_eq hlen hcell]
        have hnew := getElem?_shown hw.inputs_batch hw.positions_batch hni
        have hzip : (before.zip (shown new call.inputIds call.positionIds))[index]?=some
            (visible (old.row index) ((layer.keys.row index).zip (layer.values.row index)),
              visible (new.row index)
                ((call.inputIds.row index).zip (call.positionIds.row index))) :=
          List.getElem?_zip_eq_some.mpr ⟨hbefore,hnew⟩
        rw [getElem?_shown (hkb.trans hmb.symm) (hvb.trans hmb.symm) (hi.trans_eq hmb.symm),
          List.getElem?_map,hzip,hkr index hi,hvr index hi,Tensor.row_beside hb hgr hi,
          List.zip_append hlen,visible_append hrow]
        rfl
      · have hnone : (before.zip (shown new call.inputIds call.positionIds)).length ≤ index := by
          rw [List.length_zip,hright,←hb,←hstored.batch_eq,Nat.min_self]
          exact Nat.le_of_not_lt hi
        rw [List.getElem?_eq_none (hleft.trans_le (hmb.trans_le (Nat.le_of_not_lt hi))),
          List.getElem?_map,List.getElem?_eq_none hnone]
        rfl
    have hmodel : layerModel call=layerOutput grown (grownBy (some layer.keys) call.inputIds)
        (grownBy (some layer.values) call.positionIds) := by
      have hpast' : call.pastKeyValues=some cache := hpast
      rw [layerModel,hpast',Option.bind_some,hlayer,hmask]
      rfl
    rw [hmodel,hmask,←hshown]
    exact hcontinues

/-- The length of the longest row. -/
def longestRow (rows : List (List ℕ)) : ℕ := (rows.map List.length).foldr max 0

theorem le_longestRow {rows : List (List ℕ)} {row : List ℕ} (h : row∈rows) :
    row.length≤longestRow rows := by
  rw [longestRow]
  induction rows with
  | nil => exact absurd h List.not_mem_nil
  | cons first rows ih =>
    rw [List.map_cons,List.foldr_cons]
    rcases List.mem_cons.mp h with rfl | h
    · exact le_max_left _ _
    · exact (ih h).trans (le_max_right _ _)

/-- Rows of different lengths, zeros in front of the shorter ones. -/
def raggedRows (rows : List (List ℕ)) : Tensor ℕ where
  rows := rows.map (fun row => List.replicate (longestRow rows-row.length) 0++row)
  width := longestRow rows
  uniform := by
    intro row h
    obtain ⟨before,hb,rfl⟩ := List.mem_map.mp h
    rw [List.length_append,List.length_replicate]
    exact Nat.sub_add_cancel (le_longestRow hb)

/-- A token for each character. -/
def characterTokens (prompt : String) : List ℕ := prompt.toList.map (fun c => c.toNat%3)

/-- The tokenizer that has a token for each character. -/
def characterTokenizer : Tokenizer where
  encode prompts :=
    {inputIds := raggedRows (prompts.map characterTokens)
     attentionMask := raggedRows
      (prompts.map (fun prompt => List.replicate (characterTokens prompt).length 1))}
  decode tokens := if tokens=[1] then "b" else "c"
  eosTokenId := some 0

/-- The tokenizer pads on the left. -/
theorem characterTokenizer_pads : PadsLeft characterTokenizer characterTokens := by
  intro prompts _
  have hlongest : longestRow (prompts.map
      (fun prompt => List.replicate (characterTokens prompt).length 1))=
      longestRow (prompts.map characterTokens) := by
    rw [longestRow,longestRow,List.map_map,List.map_map]
    refine congrArg (List.foldr max 0) (List.map_congr_left ?_)
    intro prompt _
    exact List.length_replicate
  refine ⟨longestRow (prompts.map characterTokens),0,rfl,hlongest,?_,?_⟩
  · simp only [characterTokenizer,raggedRows,List.map_map]
    rfl
  · simp only [characterTokenizer,raggedRows,List.map_map,hlongest]
    refine List.map_congr_left ?_
    intro prompt _
    simp only [Function.comp,List.length_replicate]
    rfl

end CudaForge.OneLayerModel
