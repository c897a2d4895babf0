import CudaForge.PythonBuiltins
import CudaForge.PythonStrings
import CudaForge.SeparatedStreams

/-!
# The packed training data

`build_dataset` tokenises the texts that are not blank, ends each with the EOS token
if there is one, and cuts the stream into blocks without padding. The tokenizer's
`encode` is a parameter.
-/

namespace CudaForge.PackedDatasets

open PythonBuiltins PythonStrings SeparatedStreams

variable {Token : Type}

/-- `pack_token_stream`. -/
def packTokenStream (tokenIds : List Token) (blockSize : ℤ) : Except PyError (List (List Token)) :=
  if blockSize≤0 then .error (.valueError s!"block_size must be positive, got {blockSize}")
  else
    let usable := tokenIds.length/blockSize.toNat*blockSize.toNat
    if usable=0 then .ok []
    else .ok (cut blockSize.toNat (usable/blockSize.toNat) (tokenIds.take usable))

/-- The blocks of a `PackedCausalDataset`, if its constructor accepts them. -/
def packedCausalDataset (blocks : List (List Token)) : Except PyError (List (List Token)) :=
  if blocks.isEmpty then
    .error (.valueError ("no training blocks were produced; the corpus is shorter than "++
      "one block, or max_seq_length is too large for it"))
  else .ok blocks

/-- One item of a dataset. -/
structure PackedExample (Token : Type) where
  /-- The block. -/
  input_ids : List Token
  /-- Ones. -/
  attention_mask : List ℕ
  /-- A copy of the block. -/
  labels : List Token

/-- `PackedCausalDataset.__getitem__`, which counts a negative index from the end. -/
def getItem (blocks : List (List Token)) (index : ℤ) : Except PyError (PackedExample Token) :=
  if index < -(blocks.length : ℤ) ∨ (blocks.length : ℤ) ≤ index then .error listIndexError
  else
    let block := blocks.getD (if index<0 then index+blocks.length else index).toNat []
    .ok ⟨block,block.map (fun _ => 1),block⟩

/-- An index in range, from either end, gives an item made of a block. -/
theorem getItem_mem {blocks : List (List Token)} {index : ℤ}
    (hlow : -(blocks.length : ℤ) ≤ index) (hhigh : index<blocks.length) :
    ∃ block∈blocks, getItem blocks index=
      .ok ⟨block,List.replicate block.length 1,block⟩ := by
  have hlt : (if index<0 then index+blocks.length else index).toNat<blocks.length := by
    split <;> omega
  refine ⟨_,List.getElem_mem hlt,?_⟩
  rw [getItem,if_neg (by omega)]
  dsimp only
  rw [List.getD_eq_getElem?_getD,List.getElem?_eq_getElem hlt,Option.getD_some,List.map_const']

/-- The stream of tokens that `build_dataset` collects. -/
def tokenStream (encode : List Char → List Token) (eosTokenId : Option Token)
    (texts : List (List Char)) : List Token :=
  texts.foldl (fun stream text =>
    if isBlank text then stream
    else stream++encode text++(eosTokenId.map fun eos => [eos]).getD []) []

/-- `build_dataset`, given its own EOS token or else that of the tokenizer. -/
def buildDataset (encode : List Char → List Token) (tokenizerEos eosTokenId : Option Token)
    (texts : List (List Char)) (blockSize : ℤ) : Except PyError (List (List Token)) := do
  let blocks ← packTokenStream (tokenStream encode (eosTokenId <|> tokenizerEos) texts) blockSize
  packedCausalDataset blocks

/-- The encoded documents. -/
def documents (encode : List Char → List Token) (texts : List (List Char)) : List (List Token) :=
  (texts.filter fun text => !isBlank text).map encode

/-- The documents one after the other, each ended by the EOS token if there is
one. -/
def stream (eos : Option Token) (documents : List (List Token)) : List Token :=
  match eos with
  | none => documents.flatten
  | some eos => joined eos documents

/-- The stream that is collected is that of the encoded documents. -/
theorem tokenStream_eq (encode : List Char → List Token) (eos : Option Token)
    (texts : List (List Char)) :
    tokenStream encode eos texts=stream eos (documents encode texts) := by
  have hcons : ∀ (document : List Token) (rest : List (List Token)),
      stream eos (document::rest)=
        document++(eos.map fun eos => [eos]).getD []++stream eos rest := by
    intro document rest
    cases eos with
    | none => exact congrArg (·++_) (List.append_nil document).symm
    | some eos =>
      rw [stream,joined,List.flatMap_cons]
      rfl
  have hstart : ∀ (collected : List Token), texts.foldl (fun stream text =>
      if isBlank text then stream else stream++encode text++(eos.map fun eos => [eos]).getD [])
        collected=collected++stream eos (documents encode texts) := by
    induction texts with
    | nil =>
      intro collected
      cases eos <;> exact (List.append_nil collected).symm
    | cons text texts ih =>
      intro collected
      rw [List.foldl_cons,ih]
      by_cases hb : isBlank text=true
      · rw [if_pos hb,documents,documents,List.filter_cons,hb,Bool.not_true,
          if_neg Bool.false_ne_true]
      · rw [if_neg hb,documents,documents,List.filter_cons,Bool.eq_false_of_not_eq_true hb,
          Bool.not_false,if_pos rfl,List.map_cons,hcons,List.append_assoc,List.append_assoc,
          List.append_assoc]
  exact hstart []

/-- What packing does to a stream. -/
theorem buildDataset_eq (encode : List Char → List Token) (tokenizerEos eosTokenId : Option Token)
    (texts : List (List Char)) {blockSize : ℤ} (hpos : 0<blockSize) {tokens : List Token}
    (hs : tokenStream encode (eosTokenId <|> tokenizerEos) texts=tokens) :
    buildDataset encode tokenizerEos eosTokenId texts blockSize=
      packedCausalDataset (cut blockSize.toNat (tokens.length/blockSize.toNat) tokens) := by
  have hsize : 0<blockSize.toNat := by omega
  rw [buildDataset,hs,packTokenStream,if_neg (by omega)]
  dsimp only
  split
  · next hzero =>
    have hcount : tokens.length/blockSize.toNat=0 := by
      rcases Nat.mul_eq_zero.mp hzero with h | h
      · exact h
      · omega
    rw [ok_bind,hcount]
    rfl
  · rw [ok_bind,Nat.mul_div_cancel _ hsize]
    refine congrArg packedCausalDataset (List.map_congr_left fun block hm => ?_)
    have hlt := List.mem_range.mp hm
    have hle : (block+1)*blockSize.toNat ≤ tokens.length/blockSize.toNat*blockSize.toNat :=
      Nat.mul_le_mul_right _ hlt
    rw [Nat.succ_mul] at hle
    rw [List.drop_take,List.take_take,Nat.min_eq_left (by omega)]

/-- For every corpus, tokenizer and block size, with an EOS token that is given,
that is the tokenizer's, or that neither has: a block size that is not positive is
refused, and so is a corpus of fewer tokens than a block; otherwise every item is a
full block of the stream, of which fewer tokens than a block are left out at its end.
An index in range, from either end, gives a block with as many ones and its copy.
Where there is an EOS token that the tokenizer's `encode` never emits, splitting what
the items hold gives the documents back in order, without the blank ones, up to the
one in which the last block ends. -/
theorem buildDataset_roundTrip (encode : List Char → List Token)
    (tokenizerEos eosTokenId : Option Token) (texts : List (List Char)) (blockSize : ℤ)
    [DecidableEq Token] :
    (blockSize≤0 → buildDataset encode tokenizerEos eosTokenId texts blockSize=
      .error (.valueError s!"block_size must be positive, got {blockSize}")) ∧
    (0<blockSize → ((stream (eosTokenId <|> tokenizerEos) (documents encode texts)).length : ℤ)<
        blockSize →
      buildDataset encode tokenizerEos eosTokenId texts blockSize=
        .error (.valueError ("no training blocks were produced; the corpus is shorter than "++
          "one block, or max_seq_length is too large for it"))) ∧
    (0<blockSize →
      blockSize ≤ (stream (eosTokenId <|> tokenizerEos) (documents encode texts)).length →
      ∃ blocks, buildDataset encode tokenizerEos eosTokenId texts blockSize=.ok blocks ∧
        (∀ block∈blocks, (block.length : ℤ)=blockSize) ∧
        (∀ index, -(blocks.length : ℤ) ≤ index → index<blocks.length →
          ∃ block∈blocks, getItem blocks index=
            .ok ⟨block,List.replicate blockSize.toNat 1,block⟩) ∧
        blocks.flatten<+:stream (eosTokenId <|> tokenizerEos) (documents encode texts) ∧
        ((stream (eosTokenId <|> tokenizerEos) (documents encode texts)).length : ℤ)<
          blocks.flatten.length+blockSize ∧
        ∀ eos∈eosTokenId <|> tokenizerEos, (∀ text∈texts, eos∉encode text) →
          (split eos blocks.flatten).1<+:documents encode texts ∧
          (split eos blocks.flatten).2<+:
            ((documents encode texts).drop (split eos blocks.flatten).1.length).headD []) := by
  have hstream := tokenStream_eq encode (eosTokenId <|> tokenizerEos) texts
  generalize hs : stream (eosTokenId <|> tokenizerEos) (documents encode texts)=tokens at *
  refine ⟨fun hneg => ?_,fun hpos hshort => ?_,fun hpos hlong => ?_⟩
  · rw [buildDataset,packTokenStream,if_pos hneg]
    rfl
  · have hcount : tokens.length/blockSize.toNat=0 := Nat.div_eq_of_lt (by omega)
    rw [buildDataset_eq encode tokenizerEos eosTokenId texts hpos hstream,hcount]
    rfl
  · have hsize : 0<blockSize.toNat := by omega
    have hle := Nat.div_mul_le_self tokens.length blockSize.toNat
    have hmod := Nat.div_add_mod' tokens.length blockSize.toNat
    have hlt := Nat.mod_lt tokens.length hsize
    have hcount : 0<tokens.length/blockSize.toNat := Nat.div_pos (by omega) hsize
    have hflat := cut_flatten blockSize.toNat (tokens.length/blockSize.toNat) tokens
    have hprefix :
        (cut blockSize.toNat (tokens.length/blockSize.toNat) tokens).flatten<+:tokens := by
      rw [hflat]
      exact List.take_prefix _ _
    refine ⟨cut blockSize.toNat (tokens.length/blockSize.toNat) tokens,?_,fun block hm => ?_,
      fun index hlow hhigh => ?_, hprefix,?_,fun eos he hfree => ?_⟩
    · rw [buildDataset_eq encode tokenizerEos eosTokenId texts hpos hstream,packedCausalDataset,
        if_neg]
      rw [List.isEmpty_iff,cut,List.map_eq_nil_iff,List.range_eq_nil]
      omega
    · rw [length_of_mem_cut hle hm]
      omega
    · obtain ⟨block,hm,hitem⟩ := getItem_mem hlow hhigh
      exact ⟨block,hm,by rw [hitem,length_of_mem_cut hle hm]⟩
    · rw [hflat,List.length_take]
      omega
    · rw [Option.mem_def.mp he] at hs
      refine split_prefix (fun document hd => ?_) (hs.symm ▸ hprefix)
      obtain ⟨text,ht,rfl⟩ := List.mem_map.mp hd
      exact hfree text (List.mem_filter.mp ht).1

/-- Two documents of two characters, with a blank one between them, in blocks of
two, with the tokenizer's EOS token. -/
theorem buildDataset_roundTrip_two :
    ∃ blocks, buildDataset (fun text => text.map Char.toNat) (some 0) none
        [['a','b'],[' '],['c','d']] 2=.ok blocks ∧
      (split 0 blocks.flatten).1<+:[[97,98],[99,100]] := by
  have hrun := (buildDataset_roundTrip (fun text => text.map Char.toNat) (some 0) none
    [['a','b'],[' '],['c','d']] 2).2.2 (by decide) (by decide)
  obtain ⟨blocks,hblocks,-,-,-,-,hsplit⟩ := hrun
  exact ⟨blocks,hblocks,(hsplit 0 rfl (by decide)).1⟩

end CudaForge.PackedDatasets
