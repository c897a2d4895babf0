import CudaForge.StepwiseRunner

/-!
# What the runner's tensors hold

A row of the cache is known by its visible keys and values, layer by layer.
What they store is a history of tokens with their positions, and the model
is assumed to continue it: from any batch of rows it yields, for each, the
logits of its history alone and a row that stores the longer history. Padding,
stacking and selecting rows keep what each row stores.
-/

namespace CudaForge.RunnerTables

open BatchTensors PythonBuiltins StepwiseRunner

/-- Tokens with their positions. -/
abbrev History := List (ℕ×ℕ)

variable {κ : Type}

/-- Whether some visible keys and values, layer by layer, store a history. -/
abbrev Stores (κ : Type) := History → List (List κ×List κ) → Prop

/-- Every tensor of the layer has this shape. -/
structure Shaped (layer : Layer κ) (batch width : ℕ) : Prop where
  keys_batch : layer.keys.batch=batch
  keys_width : layer.keys.width=width
  values_batch : layer.values.batch=batch
  values_width : layer.values.width=width

/-- The visible keys and values of a row in one layer. -/
def layerRow (mask : List ℕ) (index : ℕ) (layer : Layer κ) : List κ×List κ :=
  (visible mask (layer.keys.row index),visible mask (layer.values.row index))

/-- The visible keys and values of a row. -/
def cacheRow (cache : Cache κ) (mask : Tensor ℕ) (index : ℕ) : List (List κ×List κ) :=
  cache.layers.map (layerRow (mask.row index) index)

/-- The rows of the cache, as the mask shows them, store these histories. -/
structure Stored (stores : Stores κ) (depth : ℕ) (cache : Cache κ) (mask : Tensor ℕ)
    (histories : List History) : Prop where
  depth_eq : cache.layers.length=depth
  batch_eq : mask.batch=histories.length
  shaped : ∀ layer∈cache.layers, Shaped layer mask.batch mask.width
  stored : ∀ index, ∀ history∈histories[index]?, stores history (cacheRow cache mask index)

/-- The tokens that a mask shows, with their positions. -/
def shown (mask inputs positions : Tensor ℕ) : List History :=
  (mask.rows.zip (inputs.rows.zip positions.rows)).map
    (fun row => visible row.1 (row.2.1.zip row.2.2))

/-- Tokens and positions have the shape of the mask, and each row of the mask
ends in a one. -/
structure WellFed (mask inputs positions : Tensor ℕ) : Prop where
  inputs_batch : inputs.batch=mask.batch
  inputs_width : inputs.width=mask.width
  positions_batch : positions.batch=mask.batch
  positions_width : positions.width=mask.width
  last_one : ∀ row∈mask.rows, row.getLast?=some 1

/-- An output continues histories: its last logits are theirs, and its cache
stores them. -/
structure Continues (stores : Stores κ) (logitsOf : History → List ℚ) (depth : ℕ)
    (output : ModelOutput κ) (mask : Tensor ℕ) (histories : List History) : Prop where
  logits : output.logits.map List.getLast?=histories.map (fun history => some (logitsOf history))
  cache : Stored stores depth output.pastKeyValues mask histories

/-- A model whose next logits for a row depend on nothing but the row's
visible tokens and positions, those in the cache included. -/
structure ReadsHistory (model : ModelCall κ → ModelOutput κ) (stores : Stores κ)
    (logitsOf : History → List ℚ) (depth vocabulary : ℕ) : Prop where
  depth_pos : 0<depth
  vocabulary_pos : 0<vocabulary
  vocabulary_eq : ∀ history, (logitsOf history).length=vocabulary
  /-- A call without a cache starts the histories. -/
  fresh : ∀ call, call.pastKeyValues=none →
    WellFed call.attentionMask call.inputIds call.positionIds →
    Continues stores logitsOf depth (model call) call.attentionMask
      (shown call.attentionMask call.inputIds call.positionIds)
  /-- A call with a cache goes on from what the cache stores. -/
  extended : ∀ call, ∀ cache∈call.pastKeyValues, ∀ old new before,
    old.beside new=some call.attentionMask → Stored stores depth cache old before →
    WellFed new call.inputIds call.positionIds →
    Continues stores logitsOf depth (model call) call.attentionMask
      ((before.zip (shown new call.inputIds call.positionIds)).map
        (fun history => history.1++history.2))

/-- A tokenizer that pads a batch on the left, each prompt to its own tokens. -/
def PadsLeft (tokenizer : Tokenizer) (tokensOf : String → List ℕ) : Prop :=
  ∀ prompts, prompts≠[] → ∃ width pad,
    (tokenizer.encode prompts).inputIds.width=width ∧
    (tokenizer.encode prompts).attentionMask.width=width ∧
    (tokenizer.encode prompts).inputIds.rows=prompts.map (fun prompt =>
      List.replicate (width-(tokensOf prompt).length) pad++tokensOf prompt) ∧
    (tokenizer.encode prompts).attentionMask.rows=prompts.map (fun prompt =>
      leftMask (width-(tokensOf prompt).length) (tokensOf prompt).length)

/-- There is a history for each row of the mask. -/
theorem length_shown {mask inputs positions : Tensor ℕ} (hi : inputs.batch=mask.batch)
    (hp : positions.batch=mask.batch) : (shown mask inputs positions).length=mask.batch := by
  have hil : inputs.rows.length=mask.rows.length := hi
  have hpl : positions.rows.length=mask.rows.length := hp
  rw [shown,List.length_map,List.length_zip,List.length_zip,hil,hpl,Nat.min_self,Nat.min_self]
  rfl

/-- The history shown in a row. -/
theorem getElem?_shown {mask inputs positions : Tensor ℕ} (hi : inputs.batch=mask.batch)
    (hp : positions.batch=mask.batch) {index : ℕ} (h : index < mask.batch) :
    (shown mask inputs positions)[index]?=
      some (visible (mask.row index) ((inputs.row index).zip (positions.row index))) := by
  have hm : index < mask.rows.length := h
  have hin : index < inputs.rows.length := h.trans_eq hi.symm
  have hpn : index<positions.rows.length := h.trans_eq hp.symm
  have hlen : index<(shown mask inputs positions).length := length_shown hi hp ▸ h
  rw [List.getElem?_eq_getElem hlen]
  simp only [shown,List.getElem_map,List.getElem_zip,Tensor.row,List.getElem?_eq_getElem hm,
    List.getElem?_eq_getElem hin,List.getElem?_eq_getElem hpn,Option.getD_some]

/-- Padding to a length that is not reached is padding by what is missing. -/
theorem leftPad_eq {α : Type} [Zero α] (tensor : Tensor α) (toLength : ℕ) :
    leftPad tensor toLength=tensor.padZeros (toLength-tensor.width) := by
  rw [leftPad]
  by_cases h : (toLength : ℤ)-tensor.width≤0
  · have hz : toLength-tensor.width=0 := by omega
    rw [if_pos h,hz,Tensor.padZeros_zero]
  · have hc : ((toLength : ℤ)-tensor.width).toNat=toLength-tensor.width := by omega
    rw [if_neg h,hc]

/-- Tensors padded to a length that neither exceeds can be stacked. -/
theorem catRows_leftPad {α : Type} [Zero α] (t u : Tensor α) {common : ℕ} (ht : t.width≤common)
    (hu : u.width≤common) : ∃ s, catRows (leftPad t common) (leftPad u common)=.ok s ∧
      s.rows=(t.padZeros (common-t.width)).rows++(u.padZeros (common-u.width)).rows ∧
      s.width=common := by
  have hw : (t.padZeros (common-t.width)).width=common := Nat.sub_add_cancel ht
  have hv : (u.padZeros (common-u.width)).width=common := Nat.sub_add_cancel hu
  obtain ⟨s,hs,hr,hws⟩ := Tensor.stack_eq (hw.trans hv.symm)
  rw [leftPad_eq,leftPad_eq,catRows,hs]
  exact ⟨s,rfl,hr,hws.trans hw⟩

/-- Rows of a stack of padded tensors, seen through masks padded alike. -/
theorem visible_stack {t u s : Tensor κ} [Zero κ] {m n : ℕ}
    (hs : s.rows=(t.padZeros m).rows++(u.padZeros n).rows) (index : ℕ) (mask : List ℕ) :
    (index<t.batch → visible (List.replicate m 0++mask) (s.row index)=
        visible mask (t.row index)) ∧
      (index<u.batch → visible (List.replicate n 0++mask) (s.row (t.batch+index))=
        visible mask (u.row index)) := by
  have hbatch : (t.padZeros m).batch=t.batch := Tensor.batch_padZeros
  constructor
  · intro h
    rw [Tensor.row_stack_left hs (hbatch.symm ▸ h),Tensor.row_padZeros h,
      visible_padded _ _ _ _ List.length_replicate]
  · intro h
    have hle : (t.padZeros m).batch ≤ t.batch+index := hbatch.symm ▸ Nat.le_add_right _ _
    rw [Tensor.row_stack_right hs hle,hbatch,Nat.add_sub_cancel_left,Tensor.row_padZeros h,
      visible_padded _ _ _ _ List.length_replicate]

/-- Merging layers of equal depth keeps what each row shows. -/
theorem mergeLayers_ok [Zero κ] {batch batch' width width' common : ℕ} (hw : width≤common)
    (hw' : width'≤common) (layers : List (Layer κ)) : ∀ others : List (Layer κ),
    layers.length=others.length → (∀ layer∈layers, Shaped layer batch width) →
    (∀ layer∈others, Shaped layer batch' width') →
    ∃ merged, mergeLayers common layers others=.ok merged ∧
      merged.length=layers.length ∧ (∀ layer∈merged, Shaped layer (batch+batch') common) ∧
      (∀ index<batch, ∀ mask, merged.map
          (layerRow (List.replicate (common-width) 0++mask) index)=
        layers.map (layerRow mask index)) ∧
      (∀ index<batch', ∀ mask, merged.map
          (layerRow (List.replicate (common-width') 0++mask) (batch+index))=
        others.map (layerRow mask index)) := by
  induction layers with
  | nil =>
    intro others hl _ _
    rw [List.length_eq_zero_iff.mp hl.symm]
    exact ⟨[],rfl,rfl,nofun,fun _ _ _ => rfl,fun _ _ _ => rfl⟩
  | cons layer layers ih =>
    intro others hl hs hs'
    cases others with
    | nil => exact absurd hl (Nat.succ_ne_zero _)
    | cons other others =>
      obtain ⟨rest,hrest,hlen,hshape,hupper,hlower⟩ := ih others (Nat.succ.inj hl)
        (fun x hx => hs x (List.mem_cons_of_mem _ hx))
        (fun x hx => hs' x (List.mem_cons_of_mem _ hx))
      have ha := hs layer List.mem_cons_self
      have hb := hs' other List.mem_cons_self
      obtain ⟨keys,hk,hkr,hkw⟩ := catRows_leftPad layer.keys other.keys
        (ha.keys_width ▸ hw) (hb.keys_width ▸ hw')
      obtain ⟨values,hv,hvr,hvw⟩ := catRows_leftPad layer.values other.values
        (ha.values_width ▸ hw) (hb.values_width ▸ hw')
      rw [ha.keys_width,hb.keys_width] at hkr
      rw [ha.values_width,hb.values_width] at hvr
      refine ⟨{keys := keys, values := values}::rest,?_,?_,?_,?_,?_⟩
      · rw [mergeLayers,hk,hv,hrest]
        rfl
      · rw [List.length_cons,List.length_cons,hlen]
      · intro x hx
        rcases List.mem_cons.mp hx with rfl | hx
        · refine ⟨?_,hkw,?_,hvw⟩
          · rw [Tensor.batch,hkr,List.length_append]
            exact congrArg₂ (·+·) (Tensor.batch_padZeros.trans ha.keys_batch)
              (Tensor.batch_padZeros.trans hb.keys_batch)
          · rw [Tensor.batch,hvr,List.length_append]
            exact congrArg₂ (·+·) (Tensor.batch_padZeros.trans ha.values_batch)
              (Tensor.batch_padZeros.trans hb.values_batch)
        · exact hshape x hx
      · intro index hi mask
        have hkey := (visible_stack hkr index mask).1 (ha.keys_batch.symm ▸ hi)
        have hvalue := (visible_stack hvr index mask).1 (ha.values_batch.symm ▸ hi)
        rw [List.map_cons,List.map_cons,hupper index hi mask,layerRow,layerRow,hkey,hvalue]
      · intro index hi mask
        have hkey := (visible_stack hkr index mask).2 (hb.keys_batch.symm ▸ hi)
        have hvalue := (visible_stack hvr index mask).2 (hb.values_batch.symm ▸ hi)
        rw [ha.keys_batch] at hkey
        rw [ha.values_batch] at hvalue
        rw [List.map_cons,List.map_cons,hlower index hi mask,layerRow,layerRow,hkey,hvalue]

/-- Selecting rows of layers keeps what each of them shows. -/
theorem batchSelect_ok {batch width : ℕ} {keep : List ℕ} (hk : ∀ index∈keep, index<batch)
    (layers : List (Layer κ)) : (∀ layer∈layers, Shaped layer batch width) →
    ∃ selected, batchSelect keep layers=.ok selected ∧ selected.length=layers.length ∧
      (∀ layer∈selected, Shaped layer keep.length width) ∧
      ∀ index, ∀ hi : index<keep.length, ∀ mask,
        selected.map (layerRow mask index)=layers.map (layerRow mask keep[index]) := by
  induction layers with
  | nil => exact fun _ => ⟨[],rfl,rfl,nofun,fun _ _ _ => rfl⟩
  | cons layer layers ih =>
    intro hs
    obtain ⟨rest,hrest,hlen,hshape,hrows⟩ := ih (fun x hx => hs x (List.mem_cons_of_mem _ hx))
    have ha := hs layer List.mem_cons_self
    have hin : ∀ index∈keep, index<layer.keys.batch := ha.keys_batch.symm ▸ hk
    have hin' : ∀ index∈keep, index<layer.values.batch := ha.values_batch.symm ▸ hk
    obtain ⟨keys,hkeys,hkr,hkw⟩ := Tensor.select_eq hin
    obtain ⟨values,hvalues,hvr,hvw⟩ := Tensor.select_eq hin'
    refine ⟨{keys := keys, values := values}::rest,?_,?_,?_,?_⟩
    · rw [batchSelect,indexSelect,indexSelect,hkeys,hvalues,hrest]
      rfl
    · rw [List.length_cons,List.length_cons,hlen]
    · intro x hx
      rcases List.mem_cons.mp hx with rfl | hx
      · refine ⟨?_,hkw.trans ha.keys_width,?_,hvw.trans ha.values_width⟩
        · rw [Tensor.batch,hkr,List.length_map]
        · rw [Tensor.batch,hvr,List.length_map]
      · exact hshape x hx
    · intro index hi mask
      rw [List.map_cons,List.map_cons,hrows index hi mask,layerRow,layerRow,
        Tensor.row_select hkr hi,Tensor.row_select hvr hi]

variable {stores : Stores κ} {depth : ℕ} {cache incoming : Cache κ} {mask incomingMask : Tensor ℕ}
variable {histories others : List History}

namespace Stored

/-- A cache that has layers is as long as its mask. -/
theorem firstLength_eq (h : Stored stores depth cache mask histories) (hd : 0<depth) :
    firstLength cache=.ok mask.width := by
  have hlen := h.depth_eq
  have hshape := h.shaped
  rw [firstLength]
  cases hl : cache.layers with
  | nil =>
    rw [hl] at hlen
    exact absurd hlen.symm (Nat.pos_iff_ne_zero.mp hd)
  | cons layer layers =>
    rw [hl] at hshape
    exact congrArg Except.ok (hshape layer List.mem_cons_self).keys_width

/-- Merging two caches keeps what both store. -/
theorem merge [Zero κ] (h : Stored stores depth cache mask histories)
    (h' : Stored stores depth incoming incomingMask others) {common : ℕ}
    (hw : mask.width≤common) (hw' : incomingMask.width≤common) :
    ∃ layers newMask, mergeLayers common cache.layers incoming.layers=.ok layers ∧
      catRows (leftPad mask common) (leftPad incomingMask common)=.ok newMask ∧
      newMask.rows=(mask.padZeros (common-mask.width)).rows++
        (incomingMask.padZeros (common-incomingMask.width)).rows ∧ newMask.width=common ∧
      Stored stores depth {layers := layers} newMask (histories++others) := by
  obtain ⟨newMask,hm,hr,hwm⟩ := catRows_leftPad mask incomingMask hw hw'
  obtain ⟨layers,hl,hlen,hshape,hupper,hlower⟩ := mergeLayers_ok hw hw' cache.layers
    incoming.layers (h.depth_eq.trans h'.depth_eq.symm) h.shaped h'.shaped
  have hbatch : newMask.batch=mask.batch+incomingMask.batch := by
    rw [Tensor.batch,hr,List.length_append]
    exact congrArg₂ (·+·) Tensor.batch_padZeros Tensor.batch_padZeros
  have hpad : (mask.padZeros (common-mask.width)).batch=mask.batch := Tensor.batch_padZeros
  refine ⟨layers,newMask,hl,hm,hr,hwm,hlen.trans h.depth_eq,?_,?_,?_⟩
  · rw [hbatch,h.batch_eq,h'.batch_eq,List.length_append]
  · rw [hbatch,hwm]
    exact hshape
  · intro index history hh
    by_cases hi : index<histories.length
    · have hb : index < mask.batch := h.batch_eq.symm ▸ hi
      have hrow : newMask.row index=List.replicate (common-mask.width) 0++mask.row index := by
        rw [Tensor.row_stack_left hr (hpad.symm ▸ hb),Tensor.row_padZeros hb]
      rw [List.getElem?_append_left hi] at hh
      rw [cacheRow,hrow,hupper index hb]
      exact h.stored index history hh
    · obtain ⟨rest,rfl⟩ := Nat.exists_eq_add_of_le (Nat.le_of_not_lt hi)
      rw [List.getElem?_append_right (Nat.le_add_right _ _),Nat.add_sub_cancel_left] at hh
      have hb : rest < incomingMask.batch :=
        h'.batch_eq.symm ▸ (List.getElem?_eq_some_iff.mp hh).1
      have hle : (mask.padZeros (common-mask.width)).batch ≤ mask.batch+rest :=
        hpad.symm ▸ Nat.le_add_right _ _
      have hrow : newMask.row (mask.batch+rest)=
          List.replicate (common-incomingMask.width) 0++incomingMask.row rest := by
        rw [Tensor.row_stack_right hr hle,hpad,Nat.add_sub_cancel_left,Tensor.row_padZeros hb]
      rw [←h.batch_eq,cacheRow,hrow,hlower rest hb]
      exact h'.stored rest history hh

/-- Selecting rows keeps what they store. -/
theorem select (h : Stored stores depth cache mask histories) {keep : List ℕ}
    (hk : ∀ index∈keep, index<histories.length) :
    ∃ layers newMask, batchSelect keep cache.layers=.ok layers ∧
      indexSelect mask keep=.ok newMask ∧ newMask.rows=keep.map mask.row ∧
      newMask.width=mask.width ∧
      Stored stores depth {layers := layers} newMask
        (keep.map (fun index => histories[index]?.getD [])) := by
  have hkb : ∀ index∈keep, index < mask.batch := fun index hi => h.batch_eq.symm ▸ hk index hi
  obtain ⟨newMask,hm,hr,hw⟩ := Tensor.select_eq hkb
  obtain ⟨layers,hl,hlen,hshape,hrows⟩ := batchSelect_ok hkb cache.layers h.shaped
  have hbatch : newMask.batch=keep.length := by rw [Tensor.batch,hr,List.length_map]
  refine ⟨layers,newMask,hl,?_,hr,hw,hlen.trans h.depth_eq,?_,?_,?_⟩
  · rw [indexSelect,hm]
    rfl
  · rw [hbatch,List.length_map]
  · rw [hbatch,hw]
    exact hshape
  · intro index history hh
    obtain ⟨hi,rfl⟩ := List.getElem?_eq_some_iff.mp hh
    rw [List.length_map] at hi
    have hlt := hk _ (List.getElem_mem hi)
    rw [cacheRow,Tensor.row_select hr hi,hrows index hi,List.getElem_map,
      List.getElem?_eq_getElem hlt,Option.getD_some]
    exact h.stored _ _ (List.getElem?_eq_getElem hlt)

end Stored

end CudaForge.RunnerTables
