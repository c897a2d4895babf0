import Mathlib.Tactic

/-!
# The latency histogram of the native runtime

`LatencyHistogram` with its log-linear buckets. An array is a function of its
index, counters are natural numbers, and a quantile is a rational number. The
rank of a quantile is rounded down, so the reported value is as close as it is
documented exactly when rounding up would end in the same bucket.
-/

namespace CudaForge.NativeHistogram

/-- `kSubBuckets`. -/
def subBuckets : ℕ := 16

/-- `kSubBucketBits`. -/
def subBucketBits : ℕ := 4

/-- `kBucketCount`: as many buckets for each of forty magnitudes. -/
def bucketCount : ℕ := subBuckets*40

/-- `bucket_index`. -/
def bucketIndex (value : ℕ) : ℕ :=
  if value<subBuckets then value
  else
    let magnitude := value.log2
    let shift := magnitude-subBucketBits
    let sub := (value>>>shift)&&&(subBuckets-1)
    let base := (magnitude-subBucketBits+1)*subBuckets
    min (base+sub) (bucketCount-1)

/-- `bucket_upper_bound`. -/
def bucketUpperBound (index : ℕ) : ℕ :=
  if index<subBuckets then index
  else
    let magnitude := index/subBuckets+subBucketBits-1
    let sub := index%subBuckets
    let shift := magnitude-subBucketBits
    ((subBuckets+sub+1)<<<shift)-1

/-- The histogram. -/
structure LatencyHistogram where
  /-- How many samples each bucket holds. -/
  counts : ℕ → ℕ := fun _ => 0
  /-- How many samples there are. -/
  totalCount : ℕ := 0
  /-- Their sum, as a 64-bit word. -/
  sumNs : ℕ := 0
  /-- The smallest, the largest word at first. -/
  minNs : ℕ := 2^64-1
  /-- The largest. -/
  maxNs : ℕ := 0

namespace LatencyHistogram

/-- `record`. -/
def record (h : LatencyHistogram) (value : ℕ) : LatencyHistogram where
  counts := Function.update h.counts (bucketIndex value) (h.counts (bucketIndex value)+1)
  totalCount := h.totalCount+1
  sumNs := (h.sumNs+value)%2^64
  minNs := min h.minNs value
  maxNs := max h.maxNs value

/-- The first bucket at which the running count reaches a rank, among so many
from an index on. -/
def scan (counts : ℕ → ℕ) (rank : ℕ) : ℕ → ℕ → ℕ → Option ℕ
  | 0,_,_ => none
  | remaining+1,index,cumulative =>
    if rank≤cumulative+counts index then some index
    else scan counts rank remaining (index+1) (cumulative+counts index)

/-- `percentile`. -/
def percentile (h : LatencyHistogram) (quantile : ℚ) : ℕ :=
  if h.totalCount=0 then 0
  else
    let clamped := min (max quantile 0) 1
    let rank := ⌊clamped*h.totalCount⌋₊
    let rank := if rank=0 then 1 else rank
    match scan h.counts rank bucketCount 0 0 with
    | some index => bucketUpperBound index
    | none => h.maxNs

/-- `count`. -/
def count (h : LatencyHistogram) : ℕ := h.totalCount

/-- `min_ns`. -/
def minimum (h : LatencyHistogram) : ℕ := if h.totalCount=0 then 0 else h.minNs

/-- `max_ns`. -/
def maximum (h : LatencyHistogram) : ℕ := h.maxNs

end LatencyHistogram

/-- The histogram of some samples, in the order in which they are recorded. -/
def recorded (samples : List ℕ) : LatencyHistogram :=
  samples.foldl LatencyHistogram.record {}

/-- The sample of a rank, counted from one, among the smallest. -/
def smallest (samples : List ℕ) (rank : ℕ) : ℕ :=
  (samples.insertionSort (·≤·))[rank-1]?.getD 0

section Buckets

variable {value other index : ℕ}

/-- The bucket of a value: a power of two and how often it goes into the
value. -/
structure Placed (value scale times : ℕ) : Prop where
  low : times*2^scale≤value
  high : value<(times+1)*2^scale
  times_lt : times<32
  filled : 16≤times ∨ scale=0

/-- Every value has a bucket, whose index and upper bound say where. -/
theorem bucketIndex_placed (hv : value<2^43) :
    ∃ scale times, Placed value scale times ∧ bucketIndex value=16*scale+times := by
  by_cases h : value<16
  · refine ⟨0,value,⟨?_,?_,?_,Or.inr rfl⟩,?_⟩
    · rw [pow_zero,Nat.mul_one]
    · rw [pow_zero,Nat.mul_one]
      exact Nat.lt_succ_self value
    · omega
    · rw [bucketIndex,subBuckets,if_pos h]
      omega
  · have hne : value≠0 := by omega
    have hlow := Nat.log2_self_le hne
    have hhigh := Nat.lt_log2_self (n:=value)
    have h4 : 4≤value.log2 := by
      rw [Nat.le_log2 hne]
      omega
    have h42 : value.log2<43 := (Nat.log2_lt hne).mpr hv
    obtain ⟨scale,hs⟩ := Nat.exists_eq_add_of_le h4
    have hp : 2^value.log2=16*2^scale := by
      rw [hs,pow_add]
      rfl
    have hp1 : 2^(value.log2+1)=32*2^scale := by rw [pow_succ,hp]; omega
    have hpos : 0<2^scale := Nat.two_pow_pos scale
    have ht16 : 16≤value/2^scale := (Nat.le_div_iff_mul_le hpos).mpr (hp ▸ hlow)
    have ht32 : value/2^scale<32 := (Nat.div_lt_iff_lt_mul hpos).mpr (hp1 ▸ hhigh)
    refine ⟨scale,value/2^scale,⟨Nat.div_mul_le_self _ _,?_,ht32,Or.inl ht16⟩,?_⟩
    · exact (Nat.div_lt_iff_lt_mul hpos).mp (Nat.lt_succ_self _)
    · have hshift : value.log2-4=scale := by omega
      have hsub : (value>>>scale)&&&15=value/2^scale-16 := by
        rw [Nat.shiftRight_eq_div_pow,show 15=2^4-1 from rfl,Nat.and_two_pow_sub_one_eq_mod]
        omega
      simp only [bucketIndex,subBuckets,subBucketBits,bucketCount,if_neg h,hshift]
      rw [hsub]
      omega

/-- The upper bound of such a bucket. -/
theorem bucketUpperBound_eq {scale times : ℕ} (ht : times<32) (hf : 16≤times ∨ scale=0) :
    bucketUpperBound (16*scale+times)=(times+1)*2^scale-1 := by
  by_cases h : 16*scale+times<16
  · have hs : scale=0 := by omega
    rw [bucketUpperBound,subBuckets,if_pos h,hs,pow_zero]
    omega
  · have hshift : (16*scale+times)/16+4-1-4=scale+times/16-1 := by omega
    have hmod : (16*scale+times)%16=times%16 := by omega
    simp only [bucketUpperBound,subBuckets,subBucketBits,if_neg h,hshift,hmod,
      Nat.shiftLeft_eq]
    have h16 : 16≤times := by omega
    have hdiv : times/16=1 := by omega
    have htimes : 16+times%16+1=times+1 := by omega
    rw [hdiv,htimes,Nat.add_sub_cancel]

/-- A value is at most the upper bound of its bucket, and that is at most a
sixteenth larger. -/
theorem bucket_close (hv : value<2^43) :
    value≤bucketUpperBound (bucketIndex value) ∧
      (bucketUpperBound (bucketIndex value)-value)*16≤value := by
  obtain ⟨scale,times,hp,hi⟩ := bucketIndex_placed hv
  have hlow := hp.low
  have hhigh := hp.high
  have hpos : 0<2^scale := Nat.two_pow_pos scale
  rw [hi,bucketUpperBound_eq hp.times_lt hp.filled]
  rw [Nat.succ_mul] at hhigh ⊢
  refine ⟨by omega,?_⟩
  rcases hp.filled with h16 | h0
  · have hm : 16*2^scale≤times*2^scale := Nat.mul_le_mul_right _ h16
    omega
  · rw [h0,pow_zero] at hhigh hlow ⊢
    omega

/-- A value lies beyond the upper bounds of the buckets before its own. -/
theorem upper_lt (hv : value<2^43) (ho : other<2^43)
    (h : bucketIndex other<bucketIndex value) :
    bucketUpperBound (bucketIndex other)<value := by
  obtain ⟨scale,times,hp,hi⟩ := bucketIndex_placed hv
  obtain ⟨scale',times',hp',hi'⟩ := bucketIndex_placed ho
  have hlow := hp.low
  have ht := hp.times_lt
  have ht' := hp'.times_lt
  have hf := hp.filled
  have hf' := hp'.filled
  have hpos : 0<2^scale' := Nat.two_pow_pos scale'
  rw [hi,hi'] at h
  rw [hi',bucketUpperBound_eq ht' hf']
  have hle : (times'+1)*2^scale'≤times*2^scale := by
    rcases Nat.lt_or_ge scale' scale with hlt | hge
    · have hs : 2^(scale'+1)≤2^scale := Nat.pow_le_pow_right (by decide) hlt
      rw [pow_succ] at hs
      calc (times'+1)*2^scale'≤32*2^scale' := Nat.mul_le_mul_right _ ht'
        _=16*(2^scale'*2) := by omega
        _≤16*2^scale := Nat.mul_le_mul_left _ hs
        _≤times*2^scale := Nat.mul_le_mul_right _ (by omega)
    · have hs : scale'=scale := by omega
      subst hs
      exact Nat.mul_le_mul_right _ (by omega)
  have hone : 0<(times'+1)*2^scale' := Nat.mul_pos (Nat.succ_pos _) hpos
  omega

/-- Larger values have later buckets. -/
theorem bucketIndex_mono (hv : value<2^43) (ho : other<2^43) (h : other≤value) :
    bucketIndex other≤bucketIndex value := by
  by_contra hlt
  have hu := upper_lt ho hv (Nat.lt_of_not_le hlt)
  have hc := (bucket_close hv).1
  omega

/-- Later buckets have larger upper bounds. -/
theorem upper_mono (hv : value<2^43) (ho : other<2^43)
    (h : bucketIndex other≤bucketIndex value) :
    bucketUpperBound (bucketIndex other)≤bucketUpperBound (bucketIndex value) := by
  rcases h.eq_or_lt with he | hlt
  · rw [he]
  · exact (upper_lt hv ho hlt).le.trans (bucket_close hv).1

/-- There is a bucket for every value. -/
theorem bucketIndex_lt (value : ℕ) : bucketIndex value<bucketCount := by
  have hb : bucketCount=640 := rfl
  rw [bucketIndex,subBuckets]
  by_cases h : value<16
  · rw [if_pos h]
    omega
  · rw [if_neg h]
    dsimp only
    omega

/-- A value is in one bucket only. -/
theorem Placed.unique {scale times scale' times' : ℕ} (h : Placed value scale times)
    (h' : Placed value scale' times') : 16*scale+times=16*scale'+times' := by
  -- a larger power of two goes into the value less often than sixteen times
  have hle : ∀ {scale times scale' times'}, Placed value scale times →
      Placed value scale' times' → scale' ≤ scale := by
    intro scale times scale' times' h h'
    by_contra hlt
    have hs : 2^(scale+1)≤2^scale' := Nat.pow_le_pow_right (by decide) (by omega)
    rw [pow_succ] at hs
    have hf : 16≤times' := by
      have hf := h'.filled
      omega
    have hhigh : (times+1)*2^scale≤32*2^scale := Nat.mul_le_mul_right _ h.times_lt
    have hlow : 16*2^scale'≤times'*2^scale' := Nat.mul_le_mul_right _ hf
    have hv := h.high
    have hv' := h'.low
    omega
  obtain rfl : scale=scale' := Nat.le_antisymm (hle h' h) (hle h h')
  have hpos : 0<2^scale := Nat.two_pow_pos scale
  have ht : value/2^scale=times := Nat.div_eq_of_lt_le h.low h.high
  have ht' : value/2^scale=times' := Nat.div_eq_of_lt_le h'.low h'.high
  rw [←ht,ht']

/-- The upper bound of a bucket is in that bucket. -/
theorem index_upper (hi : index<bucketCount) :
    bucketUpperBound index<2^43 ∧ bucketIndex (bucketUpperBound index)=index := by
  have hb : bucketCount=640 := rfl
  obtain ⟨scale,times,he,ht,hf,hs⟩ : ∃ scale times, index=16*scale+times ∧ times<32 ∧
      (16≤times ∨ scale=0) ∧ scale≤38 := by
    by_cases h : index<16
    · exact ⟨0,index,by omega,by omega,Or.inr rfl,by omega⟩
    · exact ⟨index/16-1,16+index%16,by omega,by omega,Or.inl (by omega),by omega⟩
  have hpos : 0<2^scale := Nat.two_pow_pos scale
  have hone : 2^scale≤(times+1)*2^scale := Nat.le_mul_of_pos_left _ (Nat.succ_pos times)
  have hlt : bucketUpperBound index<2^43 := by
    rw [he,bucketUpperBound_eq ht hf]
    calc (times+1)*2^scale-1<(times+1)*2^scale := Nat.sub_lt (hpos.trans_le hone) Nat.one_pos
      _≤32*2^38 := Nat.mul_le_mul ht (Nat.pow_le_pow_right (by decide) hs)
  have hp : Placed (bucketUpperBound index) scale times := by
    rw [he,bucketUpperBound_eq ht hf]
    refine ⟨?_,Nat.sub_lt (hpos.trans_le hone) Nat.one_pos,ht,hf⟩
    rw [Nat.succ_mul]
    omega
  obtain ⟨scale',times',hp',hi'⟩ := bucketIndex_placed hlt
  exact ⟨hlt,hi'.trans ((hp'.unique hp).trans he.symm)⟩

/-- The buckets part the values below the bound, in order and tightly. -/
theorem buckets_partition :
    (∀ value < 2^43, bucketIndex value<640 ∧
      (∀ other ≤ value, bucketIndex other≤bucketIndex value) ∧
      value≤bucketUpperBound (bucketIndex value) ∧
      16*(bucketUpperBound (bucketIndex value)-value)≤value) ∧
    (∀ index < 640, bucketIndex (bucketUpperBound index)=index) ∧
    ∀ value < 2^64, bucketIndex value<bucketCount := by
  refine ⟨?_,fun index hi => (index_upper hi).2,fun value _ => bucketIndex_lt value⟩
  intro value hv
  have hc := bucket_close hv
  refine ⟨bucketIndex_lt value,?_,hc.1,?_⟩
  · intro other ho
    exact bucketIndex_mono hv (ho.trans_lt hv) ho
  · rw [Nat.mul_comm]
    exact hc.2

/-- One of a thousand. -/
theorem thousand_placed : bucketIndex 1000<640 ∧ bucketIndex 999≤bucketIndex 1000 ∧
    bucketUpperBound (bucketIndex 1000)=1023 ∧ bucketIndex (bucketUpperBound 639)=639 ∧
    bucketIndex (2^64-1)<bucketCount := by
  obtain ⟨hbelow,hupper,hall⟩ := buckets_partition
  obtain ⟨hlt,hmono,_⟩ := hbelow 1000 (by decide)
  exact ⟨hlt,hmono 999 (by decide),by decide,hupper 639 (by decide),hall (2^64-1) (by decide)⟩

end Buckets

section Scan

open Finset LatencyHistogram

variable {counts : ℕ → ℕ} {rank bucket : ℕ} {samples : List ℕ} {h : LatencyHistogram}

/-- The scan ends at the first bucket whose running count reaches the rank. -/
theorem scan_eq (hr : rank≤∑ i ∈ range (bucket+1),counts i)
    (hb : ∀ i<bucket, ∑ j ∈ range (i+1),counts j<rank) : ∀ remaining index,
      index≤bucket → bucket < index+remaining →
        scan counts rank remaining index (∑ i ∈ range index,counts i)=some bucket := by
  intro remaining
  induction remaining with
  | zero =>
    intro index hle hlt
    omega
  | succ remaining ih =>
    intro index hle hlt
    rw [scan,←sum_range_succ]
    rcases hle.eq_or_lt with rfl | hbefore
    · rw [if_pos hr]
    · rw [if_neg (Nat.not_le.mpr (hb index hbefore))]
      exact ih (index+1) hbefore (by omega)

/-- The running count over the buckets up to one counts the samples there. -/
theorem sum_countP (samples : List ℕ) (bound : ℕ) :
    ∑ i ∈ range bound,samples.countP (fun x => bucketIndex x=i)=
      samples.countP (fun x => bucketIndex x<bound) := by
  induction samples with
  | nil => simp only [List.countP_nil,sum_const_zero]
  | cons x samples ih =>
    simp only [List.countP_cons,decide_eq_true_eq,sum_add_distrib,ih,sum_ite_eq,mem_range]

/-- What the histogram holds of the samples recorded in it. -/
structure Holds (samples : List ℕ) (h : LatencyHistogram) : Prop where
  /-- Each bucket holds its samples. -/
  counts : ∀ i, h.counts i=samples.countP (fun x => bucketIndex x=i)
  /-- Every sample is counted. -/
  total : h.totalCount=samples.length
  /-- The smallest so far. -/
  smallest : h.minNs=samples.foldl min (2^64-1)
  /-- The largest so far. -/
  largest : h.maxNs=samples.foldl max 0

/-- One sample more. -/
theorem Holds.record (hs : Holds samples h) (value : ℕ) :
    Holds (samples++[value]) (h.record value) := by
  refine ⟨?_,?_,?_,?_⟩
  · intro i
    change Function.update h.counts (bucketIndex value) (h.counts (bucketIndex value)+1) i=_
    rw [List.countP_append,List.countP_singleton]
    by_cases hi : bucketIndex value=i
    · rw [hi,Function.update_self,hs.counts,if_pos (decide_eq_true rfl)]
    · rw [Function.update_of_ne (Ne.symm hi),hs.counts,
        if_neg (fun ht => hi (of_decide_eq_true ht)),Nat.add_zero]
  · rw [List.length_append,List.length_singleton,LatencyHistogram.record,hs.total]
  · rw [List.foldl_append,List.foldl_cons,List.foldl_nil,LatencyHistogram.record,hs.smallest]
  · rw [List.foldl_append,List.foldl_cons,List.foldl_nil,LatencyHistogram.record,hs.largest]

/-- Whatever is recorded, the histogram holds it. -/
theorem recorded_holds (samples : List ℕ) : Holds samples (recorded samples) := by
  induction samples using List.reverseRecOn with
  | nil => exact ⟨fun _ => rfl,rfl,rfl,rfl⟩
  | append_singleton samples value ih =>
    rw [recorded,List.foldl_append]
    exact ih.record value

end Scan

section Ranks

variable {samples : List ℕ} {rank : ℕ}

/-- The samples before a rank are no larger, those from it on no smaller. -/
theorem smallest_between (h1 : 1≤rank) (hn : rank ≤ samples.length) :
    ∃ before later, samples.Perm (before++smallest samples rank::later) ∧
      before.length=rank-1 ∧ (∀ x∈before, x ≤ smallest samples rank) ∧
        ∀ x∈later, smallest samples rank≤x := by
  set sorted := samples.insertionSort (·≤·) with hsorted
  have hp : sorted.Perm samples := List.perm_insertionSort _ _
  have hlt : rank-1<sorted.length := by
    rw [hp.length_eq]
    omega
  have hx : smallest samples rank=sorted[rank-1] := by
    rw [smallest,←hsorted,List.getElem?_eq_getElem hlt,Option.getD_some]
  have hsplit : sorted=sorted.take (rank-1)++smallest samples rank::sorted.drop (rank-1+1) := by
    rw [hx,List.getElem_cons_drop,List.take_append_drop]
  have hpw : sorted.Pairwise (·≤·) := List.pairwise_insertionSort _ _
  rw [hsplit,List.pairwise_append,List.pairwise_cons] at hpw
  refine ⟨_,_,hsplit ▸ hp.symm,?_,?_,hpw.2.1.1⟩
  · rw [List.length_take]
    omega
  · exact fun x hx => hpw.2.2 x hx _ List.mem_cons_self

/-- The bucket of the sample of a rank is the first at which the running count
reaches the rank. -/
theorem smallest_bucket (hs : ∀ x∈samples, x<2^43) (h1 : 1≤rank) (hn : rank ≤ samples.length) :
    rank ≤ samples.countP (fun x => bucketIndex x<bucketIndex (smallest samples rank)+1) ∧
      ∀ i<bucketIndex (smallest samples rank),
        samples.countP (fun x => bucketIndex x < i+1)<rank := by
  obtain ⟨before,later,hp,hl,hbefore,hlater⟩ := smallest_between h1 hn
  set value := smallest samples rank with hvalue
  have hmem : ∀ x∈before++value::later, x<2^43 := fun x hx => hs x (hp.mem_iff.mpr hx)
  have hv : value<2^43 := hmem value (List.mem_append_right _ List.mem_cons_self)
  refine ⟨?_,?_⟩
  · rw [hp.countP_eq,List.countP_append,List.countP_cons,
      List.countP_eq_length.mpr ?_,hl,if_pos (decide_eq_true (Nat.lt_succ_self _))]
    · omega
    · intro x hx
      have hb := bucketIndex_mono hv (hmem x (List.mem_append_left _ hx)) (hbefore x hx)
      exact decide_eq_true (by omega)
  · intro i hi
    have hzero : later.countP (fun x => decide (bucketIndex x < i+1))=0 := by
      refine List.countP_eq_zero.mpr fun x hx ht => ?_
      have hb := bucketIndex_mono (hmem x (List.mem_append_right _ (List.mem_cons_of_mem _ hx)))
        hv (hlater x hx)
      have hlt := of_decide_eq_true ht
      omega
    have hout : ¬decide (bucketIndex value < i+1)=true := by
      rw [decide_eq_true_iff]
      omega
    have hle := List.countP_le_length (p:=fun x => decide (bucketIndex x < i+1)) (l:=before)
    rw [hp.countP_eq,List.countP_append,List.countP_cons,hzero,if_neg hout]
    omega

/-- A larger rank has no smaller sample. -/
theorem smallest_mono {other : ℕ} (h1 : 1≤other) (hle : other≤rank)
    (hn : rank ≤ samples.length) : smallest samples other ≤ smallest samples rank := by
  have hlen : (samples.insertionSort (·≤·)).length=samples.length :=
    (List.perm_insertionSort _ _).length_eq
  have hpw : (samples.insertionSort (·≤·)).Pairwise (·≤·) := List.pairwise_insertionSort _ _
  rw [smallest,smallest,List.getElem?_eq_getElem (by omega),List.getElem?_eq_getElem (by omega),
    Option.getD_some,Option.getD_some]
  rcases hle.eq_or_lt with rfl | hlt
  · exact Nat.le_refl _
  · exact List.pairwise_iff_getElem.mp hpw _ _ _ _ (by omega)

/-- The sample of a rank is one of the samples. -/
theorem smallest_mem (h1 : 1≤rank) (hn : rank ≤ samples.length) :
    smallest samples rank∈samples := by
  obtain ⟨before,later,hp,_⟩ := smallest_between h1 hn
  exact hp.mem_iff.mpr (List.mem_append_right _ List.mem_cons_self)

end Ranks

section Percentile

open LatencyHistogram

variable {samples : List ℕ} {quantile : ℚ}

/-- The rank that `percentile` looks for. -/
def floorRank (samples : List ℕ) (quantile : ℚ) : ℕ :=
  max 1 ⌊min (max quantile 0) 1*samples.length⌋₊

/-- The rank as documented: rounded up, and the smallest sample at zero. -/
def ceilRank (samples : List ℕ) (quantile : ℚ) : ℕ := max 1 ⌈quantile*samples.length⌉₊

/-- The rank is that of a sample. -/
theorem floorRank_le (hne : samples≠[]) (quantile : ℚ) :
    1≤floorRank samples quantile ∧ floorRank samples quantile ≤ samples.length := by
  have hpos : 1 ≤ samples.length := List.length_pos_iff.mpr hne
  refine ⟨le_max_left _ _,max_le hpos (Nat.floor_le_of_le ?_)⟩
  exact mul_le_of_le_one_left (Nat.cast_nonneg _) (min_le_right _ _)

/-- The reported percentile is the upper bound of the bucket of the sample of
that rank. -/
theorem percentile_eq (hs : ∀ x∈samples, x<2^43) (hne : samples≠[]) (quantile : ℚ) :
    (recorded samples).percentile quantile=
      bucketUpperBound (bucketIndex (smallest samples (floorRank samples quantile))) := by
  have hh := recorded_holds samples
  have htotal : (recorded samples).totalCount≠0 := by
    rw [hh.total]
    exact List.length_pos_iff.mpr hne |>.ne'
  obtain ⟨h1,hn⟩ := floorRank_le hne quantile
  have hrank : (if ⌊min (max quantile 0) 1*((recorded samples).totalCount : ℚ)⌋₊=0 then 1
      else ⌊min (max quantile 0) 1*((recorded samples).totalCount : ℚ)⌋₊)=
        floorRank samples quantile := by
    rw [hh.total,floorRank]
    split <;> omega
  obtain ⟨hreach,hbefore⟩ := smallest_bucket hs h1 hn
  have hcounts : (recorded samples).counts=fun i => samples.countP (fun x => bucketIndex x=i) :=
    funext hh.counts
  have hscan : scan (recorded samples).counts (floorRank samples quantile) bucketCount 0 0=
      some (bucketIndex (smallest samples (floorRank samples quantile))) := by
    refine scan_eq ?_ ?_ bucketCount 0 (Nat.zero_le _) ?_
    · rw [hcounts,sum_countP]
      exact hreach
    · intro i hi
      rw [hcounts,sum_countP]
      exact hbefore i hi
    · rw [Nat.zero_add]
      exact bucketIndex_lt _
  rw [percentile,if_neg htotal]
  simp only [hrank,hscan]

/-- Nothing is reported of an empty histogram. -/
theorem percentile_nil (quantile : ℚ) : (recorded []).percentile quantile=0 := rfl

/-- A larger quantile is reported no smaller. -/
theorem percentile_mono (hs : ∀ x∈samples, x<2^43) {q q' : ℚ} (h : q≤q') :
    (recorded samples).percentile q≤(recorded samples).percentile q' := by
  by_cases hne : samples=[]
  · rw [hne,percentile_nil,percentile_nil]
  · obtain ⟨h1,hn⟩ := floorRank_le hne q
    obtain ⟨h1',hn'⟩ := floorRank_le hne q'
    have hclamp : min (max q 0) 1*samples.length ≤ min (max q' 0) 1*samples.length :=
      mul_le_mul_of_nonneg_right (min_le_min_right _ (max_le_max_right _ h)) (Nat.cast_nonneg _)
    have hrank : floorRank samples q≤floorRank samples q' :=
      max_le_max_left _ (Nat.floor_le_floor hclamp)
    have hv := hs _ (smallest_mem h1 hn)
    have hv' := hs _ (smallest_mem h1' hn')
    rw [percentile_eq hs hne,percentile_eq hs hne]
    exact upper_mono hv' hv (bucketIndex_mono hv' hv (smallest_mono h1 hrank hn'))

/-- What is documented of a histogram and a quantile. -/
structure Faithful (samples : List ℕ) (quantile : ℚ) : Prop where
  /-- The sample of the rank is not underreported. -/
  covers : smallest samples (ceilRank samples quantile)≤(recorded samples).percentile quantile
  /-- It is overreported by a sixteenth at most. -/
  tight : ((recorded samples).percentile quantile-
    smallest samples (ceilRank samples quantile))*16 ≤ smallest samples (ceilRank samples quantile)
  /-- Percentiles do not fall. -/
  monotone : ∀ q q', q≤q' →
    (recorded samples).percentile q≤(recorded samples).percentile q'
  /-- Every sample is counted. -/
  count : (recorded samples).count=samples.length
  /-- The smallest sample. -/
  minimum : (recorded samples).minimum=samples.min?.getD 0
  /-- The largest sample. -/
  maximum : (recorded samples).maximum=samples.max?.getD 0

/-- The smallest sample is kept. -/
theorem minimum_eq (hs : ∀ x∈samples, x<2^43) :
    (recorded samples).minimum=samples.min?.getD 0 := by
  have hh := recorded_holds samples
  rw [LatencyHistogram.minimum,hh.total,hh.smallest,List.foldl_min]
  cases hm : samples.min? with
  | none =>
    rw [List.min?_eq_none_iff.mp hm]
    rfl
  | some least =>
    have hmem : least∈samples := List.min?_mem hm
    have hlt := hs least hmem
    rw [if_neg (List.length_pos_of_mem hmem).ne',Option.getD_some,Option.getD_some]
    omega

/-- The largest sample is kept. -/
theorem maximum_eq : (recorded samples).maximum=samples.max?.getD 0 := by
  rw [LatencyHistogram.maximum,(recorded_holds samples).largest,List.foldl_max,Nat.zero_max]

/-- The two ranks differ by one at most, and rounding up gives the larger. -/
theorem floorRank_le_ceilRank {quantile : ℚ} (h0 : 0≤quantile) (h1 : quantile≤1) :
    floorRank samples quantile≤ceilRank samples quantile := by
  rw [floorRank,ceilRank,max_eq_left h0,min_eq_left h1]
  exact max_le_max_left _ (Nat.floor_le_ceil _)

/-- The larger rank is that of a sample, too. -/
theorem ceilRank_le {quantile : ℚ} (hne : samples≠[]) (h1 : quantile≤1) :
    ceilRank samples quantile ≤ samples.length := by
  refine max_le (List.length_pos_iff.mpr hne) (Nat.ceil_le.mpr ?_)
  exact mul_le_of_le_one_left (Nat.cast_nonneg _) h1

/-- A percentile is as documented exactly when the samples of the two ranks,
rounded down and up, share a bucket. -/
theorem faithful_iff (hs : ∀ x∈samples, x<2^43) (h0 : 0≤quantile) (h1 : quantile≤1) :
    Faithful samples quantile ↔
      bucketIndex (smallest samples (floorRank samples quantile))=
        bucketIndex (smallest samples (ceilRank samples quantile)) := by
  by_cases hne : samples=[]
  · subst hne
    refine iff_of_true ⟨?_,?_,fun q q' h => percentile_mono hs h,rfl,rfl,rfl⟩ rfl
    · exact Nat.le_refl 0
    · exact Nat.le_refl 0
  · obtain ⟨hf1,hfn⟩ := floorRank_le hne quantile
    have hle : floorRank samples quantile≤ceilRank samples quantile :=
      floorRank_le_ceilRank h0 h1
    have hcn := ceilRank_le hne h1
    have hv := hs _ (smallest_mem (hf1.trans hle) hcn)
    have hu := hs _ (smallest_mem hf1 hfn)
    have hbucket := bucketIndex_mono hv hu (smallest_mono hf1 hle hcn)
    have hp := percentile_eq hs hne quantile
    constructor
    · intro h
      by_contra hdiffer
      have hbeyond := upper_lt hv hu (hbucket.lt_of_ne hdiffer)
      have hcovers := h.covers
      rw [hp] at hcovers
      omega
    · intro he
      have hclose := bucket_close hv
      rw [←he,←hp] at hclose
      exact ⟨hclose.1,hclose.2,fun q q' h => percentile_mono hs h,(recorded_holds samples).total,
        minimum_eq hs,maximum_eq⟩

/-- Of one nanosecond and a hundred the three-quarter percentile is reported
as one. -/
theorem twoSamples_unfaithful : ¬Faithful [1,100] (3/4) := by
  intro h
  exact absurd h.covers (by decide +kernel)

/-- Of three samples the two-thirds percentile is the second. -/
theorem threeSamples_faithful : Faithful [1,100,7] (2/3) :=
  (faithful_iff (by decide) (by norm_num) (by norm_num)).mpr (by decide +kernel)

end Percentile

end CudaForge.NativeHistogram
