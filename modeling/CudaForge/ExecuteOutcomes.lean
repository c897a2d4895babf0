import CudaForge.BatchGeneration
import CudaForge.DynamicBatching

/-!
# What a worker makes of a batch

`_execute` of `InferenceEngine` with `_expire`, `_complete_batch`,
`_fail_batch` and `_complete`, run through while nobody cancels a future, with
everything its responses say. The deadlines are checked in two passes, the
second one only if the first found some request expired: both take their own
readings of the clock. Every request gets one outcome exactly when no request
that was live in the first pass is found expired by the second.
-/

namespace CudaForge.ExecuteOutcomes

open ServingTypes DynamicBatching GenerationSettings
open BatchGeneration (GenerationResult)

/-- Result of one request, with the timing that explains it. -/
structure Response where
  /-- The request. -/
  requestId : String
  /-- The generated text. -/
  text : String
  promptTokens : ℕ := 0
  generatedTokens : ℕ := 0
  /-- How long the request waited to be batched. -/
  queueTime : ℚ := 0
  /-- How long the runner took. -/
  inferenceTime : ℚ := 0
  batchSize : ℕ := 1
  /-- What went wrong. -/
  error : Option String := none
  metadata : List (String×String) := []
  deriving DecidableEq

/-- An exception. -/
structure Raised where
  /-- The name of its class. -/
  className : String
  /-- Its text. -/
  text : String
  deriving DecidableEq

/-- How a response words an exception. -/
def Raised.message (error : Raised) : String := error.className++": "++error.text

/-- `queue_delay`: nothing until the request is dequeued. -/
def queueDelay (request : Request) : ℚ :=
  match request.dequeuedAt with
  | none => 0
  | some dequeuedAt => dequeuedAt-request.enqueuedAt

/-- The nearest number of tenths, from the middle the even one. -/
def tenths (x : ℚ) : ℤ :=
  let below := (x*10).floor
  if x*10-below < 1/2 then below
  else if 1/2 < x*10-below then below+1
  else if below%2=0 then below else below+1

/-- A number as the format `.1f` writes it. -/
def oneDecimal (x : ℚ) : String :=
  let magnitude := (tenths |x|).toNat
  (if x<0 then "-" else "")++toString (magnitude/10)++"."++toString (magnitude%10)

/-- The text of a trigger. -/
def triggerValue : BatchTrigger → String
  | .maxSize => "max_size"
  | .timeout => "timeout"
  | .shutdown => "shutdown"

/-- What the worker is given and what it finds. -/
structure Setup where
  /-- The requests whose futures are in the registry, none of them done. -/
  registry : List String
  /-- The batch. -/
  batch : Batch
  /-- The readings of the successive `expired` checks. -/
  clock : ℕ → ℚ
  /-- What the runner returns for prompts and settings, or raises. -/
  runner : List String → List GenerationConfig → Except Raised (List GenerationResult)
  /-- The time from before the runner's call to behind it. -/
  elapsed : ℚ
  clock_monotone : Monotone clock
  /-- The registry is a dictionary. -/
  registry_nodup : registry.Nodup
  /-- Requests have different identifiers. -/
  requests_nodup : (batch.requests.map Request.requestId).Nodup

/-- What a request is counted as. -/
inductive Account where
  | completed
  | failed
  | expired
  deriving DecidableEq

/-- The futures, and what the call records. -/
structure Execution where
  /-- The futures nobody has taken. -/
  registry : List String
  /-- The futures that were set, in that order. -/
  settled : List (String×Response) := []
  /-- The requests that were counted, in that order. -/
  counted : List (Account×String) := []
  /-- The requests the runner was called for, if it was. -/
  generated : Option (List Request) := none
  deriving DecidableEq

/-- The requests that were passed to the runner. -/
def Execution.passed (e : Execution) : List Request := e.generated.getD []

/-- `_complete`: the future of a request is set, if there is one. -/
def Execution.complete (e : Execution) (requestId : String) (response : Response) : Execution :=
  if requestId∈e.registry then {e with
    registry := e.registry.erase requestId
    settled := e.settled++[(requestId,response)]}
  else e

/-- Requests are counted one after the other, and each is settled. -/
def Execution.settleAll (e : Execution) (account : Account) (responses : List (String×Response)) :
    Execution :=
  responses.foldl (fun e p => {e with counted := e.counted++[(account,p.1)]}.complete p.1 p.2) e

/-- The response of `_expire`. -/
def expiry (request : Request) : Response where
  requestId := request.requestId
  text := ""
  queueTime := queueDelay request
  batchSize := 0
  error := some ("RequestExpired: dropped after "++oneDecimal (queueDelay request*1000)++
    " ms in the queue, past its deadline")

section Passes

variable (setup : Setup)

/-- One pass of checks over the batch: what each request answers when the
readings begin with number `start`. -/
def checked (start : ℕ) : List (Request×Bool) :=
  (setup.batch.requests.zipIdx start).map (fun p => (p.1,p.1.expired (setup.clock p.2)))

/-- The requests that the first pass finds live. -/
def live : List Request :=
  ((checked setup 0).filter (fun p => !p.2)).map Prod.fst

/-- The requests that the second pass finds expired; it is skipped when all
were live. -/
def lapsed : List Request :=
  if (live setup).length=setup.batch.requests.length then []
  else ((checked setup setup.batch.requests.length).filter Prod.snd).map Prod.fst

/-- The runner's call with the check of its length. -/
def generate (requests : List Request) : Except Raised (List GenerationResult) :=
  match setup.runner (requests.map Request.prompt) (requests.map Request.generation) with
  | .error error => .error error
  | .ok results =>
    if results.length=requests.length then .ok results
    else .error ⟨"RuntimeError","runner returned "++toString results.length++
      " results for a batch of "++toString requests.length++" requests"⟩

/-- The response of `_complete_batch`. -/
def completion (size : ℕ) (request : Request) (result : GenerationResult) : Response where
  requestId := request.requestId
  text := result.text
  promptTokens := result.promptTokens
  generatedTokens := result.generatedTokens
  queueTime := queueDelay request
  inferenceTime := setup.elapsed
  batchSize := size
  metadata := [("batch_trigger",triggerValue setup.batch.trigger)]

/-- The response of `_fail_batch`. -/
def failure (size : ℕ) (error : Raised) (request : Request) : Response where
  requestId := request.requestId
  text := ""
  queueTime := queueDelay request
  inferenceTime := setup.elapsed
  batchSize := size
  error := some error.message

/-- The loop of `_expire` calls. -/
def expireAll (requests : List Request) (e : Execution) : Execution :=
  e.settleAll .expired (requests.map (fun request => (request.requestId,expiry request)))

/-- `_complete_batch`. -/
def completeBatch (requests : List Request) (results : List GenerationResult) (e : Execution) :
    Execution :=
  e.settleAll .completed ((requests.zip results).map
    (fun p => (p.1.requestId,completion setup requests.length p.1 p.2)))

/-- `_fail_batch`. -/
def failBatch (requests : List Request) (error : Raised) (e : Execution) : Execution :=
  e.settleAll .failed (requests.map
    (fun request => (request.requestId,failure setup requests.length error request)))

/-- `_execute`. -/
def execute : Execution :=
  let swept := expireAll (lapsed setup) {registry := setup.registry}
  if live setup=[] then swept
  else
    match generate setup (live setup) with
    | .ok results =>
      completeBatch setup (live setup) results {swept with generated := some (live setup)}
    | .error error =>
      failBatch setup (live setup) error {swept with generated := some (live setup)}

end Passes

/-- The response says what the request was counted as. -/
def Matches (setup : Setup) (passed : List Request) (request : Request) (response : Response) :
    Account → Prop
  | .expired => response=expiry request
  | .completed => ∃ results result, generate setup passed=.ok results ∧
      (request,result)∈passed.zip results ∧
      response=completion setup passed.length request result
  | .failed => ∃ error, generate setup passed=.error error ∧
      response=failure setup passed.length error request

/-- A request has one outcome. -/
def OneOutcome (setup : Setup) (e : Execution) (request : Request) : Prop :=
  ∃ account response,
    e.counted.filter (fun entry => entry.2=request.requestId)=[(account,request.requestId)] ∧
    e.settled.filter (fun entry => entry.1=request.requestId)=
      (if request.requestId∈setup.registry then [(request.requestId,response)] else []) ∧
    Matches setup e.passed request response account ∧
    (account=.expired → request∉e.passed) ∧
    (request∈e.passed → (request.requestId,expiry request)∉e.settled)

/-- No request that the first pass finds live is found expired by the second:
the first pass finds all live, or the second finds live what the first did. -/
def Steady (setup : Setup) : Prop :=
  (∀ (k : ℕ) (request : Request), setup.batch.requests[k]?=some request →
    request.expired (setup.clock k)=false) ∨
  ∀ (k : ℕ) (request : Request), setup.batch.requests[k]?=some request →
    request.expired (setup.clock k)=false →
      request.expired (setup.clock (setup.batch.requests.length+k))=false

section Settling

variable {e : Execution} {account : Account} {responses : List (String×Response)}

theorem complete_counted (id : String) (response : Response) :
    (e.complete id response).counted=e.counted ∧
      (e.complete id response).generated=e.generated := by
  unfold Execution.complete
  split <;> exact ⟨rfl,rfl⟩

/-- A loop counts all its requests and calls no runner. -/
theorem settleAll_counted (e : Execution) (account : Account) (responses : List (String×Response)) :
    (e.settleAll account responses).counted=
      e.counted++responses.map (fun p => (account,p.1)) ∧
      (e.settleAll account responses).generated=e.generated := by
  induction responses generalizing e with
  | nil => exact ⟨(List.append_nil _).symm,rfl⟩
  | cons p rest ih =>
    obtain ⟨hc,hg⟩ := ih ({e with counted := e.counted++[(account,p.1)]}.complete p.1 p.2)
    obtain ⟨hcc,hcg⟩ := complete_counted (e := {e with counted := e.counted++[(account,p.1)]})
      p.1 p.2
    refine ⟨hc.trans ?_,hg.trans hcg⟩
    rw [hcc,List.append_assoc]
    rfl

/-- One call takes one future, and sets it if it was there. -/
theorem complete_settled (id : String) (response : Response) (hr : e.registry.Nodup) :
    (e.complete id response).registry=e.registry.filter (fun other => other≠id) ∧
      (e.complete id response).settled=
        e.settled++if id∈e.registry then [(id,response)] else [] := by
  unfold Execution.complete
  split
  · refine ⟨?_,rfl⟩
    rw [hr.erase_eq_filter]
    refine List.filter_congr (fun other _ => ?_)
    rw [bne,Bool.beq_eq_decide_eq,decide_not]
  · next hm =>
    refine ⟨(List.filter_eq_self.mpr (fun other ho => ?_)).symm,(List.append_nil _).symm⟩
    exact decide_eq_true (fun he => hm (he ▸ ho))

/-- A loop sets the futures that are still in the registry, and takes them. -/
theorem settleAll_settled (e : Execution) (account : Account) (responses : List (String×Response))
    (hr : e.registry.Nodup) (hn : (responses.map Prod.fst).Nodup) :
    (e.settleAll account responses).registry=
      e.registry.filter (fun id => id∉responses.map Prod.fst) ∧
      (e.settleAll account responses).settled=
        e.settled++responses.filter (fun p => p.1∈e.registry) := by
  induction responses generalizing e with
  | nil => exact ⟨(List.filter_eq_self.mpr (fun _ _ => rfl)).symm,(List.append_nil _).symm⟩
  | cons p rest ih =>
    obtain ⟨hp,hn⟩ := List.nodup_cons.mp hn
    obtain ⟨hreg,hset⟩ := complete_settled
      (e := {e with counted := e.counted++[(account,p.1)]}) p.1 p.2 hr
    obtain ⟨hrest,hall⟩ := ih ({e with counted := e.counted++[(account,p.1)]}.complete p.1 p.2)
      (by rw [hreg]; exact hr.filter _) hn
    refine ⟨hrest.trans ?_,hall.trans ?_⟩
    · rw [hreg,List.filter_filter]
      refine List.filter_congr (fun id _ => ?_)
      rw [←Bool.decide_and]
      refine decide_eq_decide.mpr ?_
      rw [List.map_cons,List.mem_cons,not_or]
      exact and_comm
    · rw [hset,hreg,List.append_assoc,List.filter_cons]
      have hother : rest.filter (fun q => q.1∈e.registry.filter (fun other => other≠p.1))=
          rest.filter (fun q => q.1∈e.registry) := by
        refine List.filter_congr (fun q hq => decide_eq_decide.mpr ?_)
        have hne : q.1≠p.1 := fun he => hp (he ▸ List.mem_map_of_mem hq)
        rw [List.mem_filter]
        exact and_iff_left (decide_eq_true hne)
      rw [hother]
      by_cases hm : p.1∈e.registry
      · simp only [hm,if_true,decide_true]
        rfl
      · simp only [hm,if_false,decide_false,List.nil_append]
        rfl

end Settling

section Outcomes

variable {setup : Setup} {request : Request}

/-- The requests of one pass, with their answers. -/
theorem mem_checked {start : ℕ} {answer : Bool} :
    (request,answer)∈checked setup start ↔ ∃ k : ℕ, setup.batch.requests[k]?=some request ∧
      request.expired (setup.clock (start+k))=answer := by
  unfold checked
  rw [List.mem_map]
  constructor
  · rintro ⟨⟨other,k⟩,hm,he⟩
    obtain ⟨rfl,rfl⟩ := Prod.mk.inj he
    obtain ⟨hle,hk⟩ := List.mk_mem_zipIdx_iff_le_and_getElem?_sub.mp hm
    exact ⟨k-start,hk,by rw [Nat.add_sub_cancel' hle]⟩
  · rintro ⟨k,hk,rfl⟩
    refine ⟨(request,start+k),List.mk_mem_zipIdx_iff_le_and_getElem?_sub.mpr ⟨?_,?_⟩,rfl⟩
    · exact Nat.le_add_right _ _
    · rwa [Nat.add_sub_cancel_left]

/-- A request has one place in the batch. -/
theorem place_unique {j k : ℕ} (hj : setup.batch.requests[j]?=some request)
    (hk : setup.batch.requests[k]?=some request) : j=k := by
  obtain ⟨hjl,hje⟩ := List.getElem?_eq_some_iff.mp hj
  obtain ⟨hkl,hke⟩ := List.getElem?_eq_some_iff.mp hk
  exact (List.Nodup.getElem_inj_iff (List.Nodup.of_map _ setup.requests_nodup)).mp
    (hje.trans hke.symm)

theorem mem_live : request∈live setup ↔ ∃ k : ℕ, setup.batch.requests[k]?=some request ∧
    request.expired (setup.clock k)=false := by
  unfold live
  constructor
  · intro h
    obtain ⟨⟨other,answer⟩,hm,rfl⟩ := List.mem_map.mp h
    obtain ⟨hc,ha⟩ := List.mem_filter.mp hm
    obtain ⟨k,hk,he⟩ := mem_checked.mp hc
    rw [Nat.zero_add] at he
    exact ⟨k,hk,he.trans (Bool.not_eq_eq_eq_not.mp ha)⟩
  · rintro ⟨k,hk,he⟩
    refine List.mem_map.mpr ⟨(request,false),List.mem_filter.mpr ⟨mem_checked.mpr ?_,rfl⟩,rfl⟩
    exact ⟨k,hk,by rw [Nat.zero_add]; exact he⟩

/-- A pass asks every request of the batch, in its order. -/
theorem checked_requests (setup : Setup) (start : ℕ) :
    (checked setup start).map Prod.fst=setup.batch.requests := by
  unfold checked
  rw [List.map_map]
  exact List.zipIdx_map_fst start setup.batch.requests

theorem live_sublist : (live setup).Sublist setup.batch.requests := by
  rw [←checked_requests setup 0]
  exact List.Sublist.map _ List.filter_sublist

theorem lapsed_sublist : (lapsed setup).Sublist setup.batch.requests := by
  unfold lapsed
  split
  · exact List.nil_sublist _
  · have hs := List.Sublist.map Prod.fst (List.filter_sublist
      (l := checked setup setup.batch.requests.length) (p := Prod.snd))
    rwa [checked_requests] at hs

/-- All are live in the first pass exactly when as many are as there are. -/
theorem all_live : (live setup).length=setup.batch.requests.length ↔
    ∀ (k : ℕ) (request : Request), setup.batch.requests[k]?=some request →
      request.expired (setup.clock k)=false := by
  constructor
  · intro hl k request hk
    have hm : request∈live setup := by
      rw [live_sublist.eq_of_length hl]
      exact List.mem_of_getElem? hk
    obtain ⟨j,hj,he⟩ := mem_live.mp hm
    rwa [place_unique hk hj]
  · intro h
    refine Nat.le_antisymm live_sublist.length_le ?_
    refine (List.Nodup.subperm (List.Nodup.of_map _ setup.requests_nodup) ?_).length_le
    intro request hm
    obtain ⟨k,hk⟩ := List.mem_iff_getElem?.mp hm
    exact mem_live.mpr ⟨k,hk,h k request hk⟩

theorem mem_lapsed : request∈lapsed setup ↔
    (live setup).length≠setup.batch.requests.length ∧
      ∃ k : ℕ, setup.batch.requests[k]?=some request ∧
        request.expired (setup.clock (setup.batch.requests.length+k))=true := by
  unfold lapsed
  split
  · next hl => exact ⟨fun h => absurd h List.not_mem_nil,fun h => absurd hl h.1⟩
  · next hl =>
    constructor
    · intro h
      obtain ⟨⟨other,answer⟩,hm,rfl⟩ := List.mem_map.mp h
      obtain ⟨hc,ha⟩ := List.mem_filter.mp hm
      obtain ⟨k,hk,he⟩ := mem_checked.mp hc
      exact ⟨hl,k,hk,he.trans ha⟩
    · rintro ⟨_,k,hk,he⟩
      exact List.mem_map.mpr ⟨(request,true),
        List.mem_filter.mpr ⟨mem_checked.mpr ⟨k,hk,he⟩,rfl⟩,rfl⟩

theorem expired_later {now later : ℚ} (h : now≤later) (he : request.expired now=true) :
    request.expired later=true := by
  unfold Request.expired at he ⊢
  cases hd : request.deadline with
  | none => rw [hd] at he; exact he
  | some deadline =>
    rw [hd] at he
    exact decide_eq_true ((of_decide_eq_true he).trans h)

/-- A request that the first pass does not find live the second one finds
expired. -/
theorem live_or_lapsed (h : request∈setup.batch.requests) :
    request∈live setup ∨ request∈lapsed setup := by
  by_cases hl : request∈live setup
  · exact .inl hl
  · obtain ⟨k,hk⟩ := List.mem_iff_getElem?.mp h
    have he : request.expired (setup.clock k)=true := by
      cases he : request.expired (setup.clock k) with
      | true => rfl
      | false => exact absurd (mem_live.mpr ⟨k,hk,he⟩) hl
    refine .inr (mem_lapsed.mpr ⟨fun hall => ?_,k,hk,?_⟩)
    · have hf := all_live.mp hall k request hk
      exact absurd (he.symm.trans hf) nofun
    · exact expired_later (setup.clock_monotone (Nat.le_add_left _ _)) he

/-- No request is found live and expired exactly when the passes agree. -/
theorem steady_iff : Steady setup ↔ ∀ request∈live setup, request∉lapsed setup := by
  constructor
  · rintro (hall | hlater) request hl hx
    · exact (mem_lapsed.mp hx).1 (all_live.mpr hall)
    · obtain ⟨k,hk,he⟩ := mem_live.mp hl
      obtain ⟨_,j,hj,hx⟩ := mem_lapsed.mp hx
      rw [place_unique hj hk] at hx
      exact absurd (hx.symm.trans (hlater k request hk he)) nofun
  · intro h
    by_cases hall : (live setup).length=setup.batch.requests.length
    · exact .inl (all_live.mp hall)
    · refine .inr (fun k request hk he => ?_)
      cases hx : request.expired (setup.clock (setup.batch.requests.length+k)) with
      | false => rfl
      | true => exact absurd (mem_lapsed.mpr ⟨hall,k,hk,hx⟩) (h request (mem_live.mpr ⟨k,hk,he⟩))

/-- Requests of a batch with one identifier are the same. -/
theorem request_unique {other : Request} (hr : request∈setup.batch.requests)
    (ho : other∈setup.batch.requests) (he : request.requestId=other.requestId) :
    request=other :=
  List.inj_on_of_nodup_map setup.requests_nodup hr ho he

theorem ids_nodup {requests : List Request} (hs : requests.Sublist setup.batch.requests) :
    (requests.map Request.requestId).Nodup :=
  setup.requests_nodup.sublist (hs.map _)

theorem mem_ids {requests : List Request} (hs : requests.Sublist setup.batch.requests)
    (hr : request∈setup.batch.requests) :
    request.requestId∈requests.map Request.requestId ↔ request∈requests := by
  constructor
  · intro h
    obtain ⟨other,ho,he⟩ := List.mem_map.mp h
    rwa [request_unique hr (hs.subset ho) he.symm]
  · exact List.mem_map_of_mem

/-- What the call has done when it is over. -/
structure Ran (setup : Setup) (account : Account) (responses : List (String×Response)) :
    Prop where
  /-- The live requests have been settled some other way. -/
  other : account≠.expired
  /-- There is a response for each of them. -/
  ids : responses.map Prod.fst=(live setup).map Request.requestId
  /-- The responses say how. -/
  matching : ∀ request∈live setup, ∀ response, (request.requestId,response)∈responses →
    Matches setup (live setup) request response account
  /-- The runner was called for the live requests. -/
  passed : (execute setup).passed=live setup
  /-- Those of the second pass are counted first. -/
  counted : (execute setup).counted=
    ((lapsed setup).map Request.requestId).map (fun id => (Account.expired,id))++
      ((live setup).map Request.requestId).map (fun id => (account,id))
  /-- They are settled first, too. -/
  settled : (execute setup).settled=
    ((lapsed setup).map (fun request => (request.requestId,expiry request))).filter
      (fun p => p.1∈setup.registry)++
    responses.filter (fun p => p.1∈setup.registry ∧
      p.1∉(lapsed setup).map Request.requestId)

/-- What the first loop leaves behind. -/
theorem expireAll_swept (setup : Setup) :
    (expireAll (lapsed setup) {registry := setup.registry}).registry=
      setup.registry.filter (fun id => id∉(lapsed setup).map Request.requestId) ∧
    (expireAll (lapsed setup) {registry := setup.registry}).settled=
      ((lapsed setup).map (fun request => (request.requestId,expiry request))).filter
        (fun p => p.1∈setup.registry) ∧
    (expireAll (lapsed setup) {registry := setup.registry}).counted=
      ((lapsed setup).map Request.requestId).map (fun id => (Account.expired,id)) ∧
    (expireAll (lapsed setup) {registry := setup.registry}).generated=none := by
  have hfirst : ((lapsed setup).map (fun request => (request.requestId,expiry request))).map
      Prod.fst=(lapsed setup).map Request.requestId := List.map_map
  obtain ⟨hc,hg⟩ := settleAll_counted {registry := setup.registry} .expired
    ((lapsed setup).map (fun request => (request.requestId,expiry request)))
  obtain ⟨hr,hs⟩ := settleAll_settled {registry := setup.registry} .expired
    ((lapsed setup).map (fun request => (request.requestId,expiry request)))
    setup.registry_nodup (by rw [hfirst]; exact ids_nodup lapsed_sublist)
  rw [hfirst] at hr
  refine ⟨hr,hs,hc.trans ?_,hg⟩
  rw [List.map_map,List.map_map]
  rfl

/-- What the second loop of the call comes to. -/
theorem ran_settled {account : Account} {responses : List (String×Response)} {e : Execution}
    (hother : account≠.expired)
    (hids : responses.map Prod.fst=(live setup).map Request.requestId)
    (hmatch : ∀ request∈live setup, ∀ response, (request.requestId,response)∈responses →
      Matches setup (live setup) request response account)
    (hpassed : e.passed=live setup)
    (he : e={expireAll (lapsed setup) {registry := setup.registry} with
      generated := e.generated})
    (hexec : execute setup=e.settleAll account responses) : Ran setup account responses := by
  obtain ⟨hreg,hset,hcount,_⟩ := expireAll_swept setup
  have hreg := (congrArg Execution.registry he).trans hreg
  have hset := (congrArg Execution.settled he).trans hset
  have hcount := (congrArg Execution.counted he).trans hcount
  obtain ⟨hc,hg⟩ := settleAll_counted e account responses
  obtain ⟨_,hs⟩ := settleAll_settled e account responses
    (by rw [hreg]; exact setup.registry_nodup.filter _)
    (by rw [hids]; exact ids_nodup live_sublist)
  refine ⟨hother,hids,hmatch,?_,?_,?_⟩
  · rw [Execution.passed,hexec,hg]
    exact hpassed
  · rw [hexec,hc,←hids,hcount]
    exact congrArg _ List.map_map.symm
  · rw [hexec,hs,hset]
    refine congrArg _ (List.filter_congr (fun p _ => decide_eq_decide.mpr ?_))
    rw [hreg,List.mem_filter,decide_eq_true_eq]

theorem generate_length {requests : List Request} {results : List GenerationResult}
    (h : generate setup requests=.ok results) : results.length=requests.length := by
  unfold generate at h
  split at h
  · exact absurd h nofun
  · split at h
    · next hl =>
      rw [←Except.ok.inj h]
      exact hl
    · exact absurd h nofun

/-- Every call runs so. -/
theorem execute_ran (setup : Setup) : ∃ account responses, Ran setup account responses := by
  by_cases hn : live setup=[]
  · refine ⟨.completed,[],ran_settled (e := expireAll (lapsed setup) {registry := setup.registry})
      nofun (by rw [hn]; rfl) ?_ ?_ rfl (if_pos hn)⟩
    · intro request hr
      rw [hn] at hr
      exact absurd hr List.not_mem_nil
    · rw [Execution.passed,(expireAll_swept setup).2.2.2,hn]
      rfl
  · cases hgen : generate setup (live setup) with
    | ok results =>
      refine ⟨.completed,((live setup).zip results).map (fun p =>
          (p.1.requestId,completion setup (live setup).length p.1 p.2)),
        ran_settled (e := {expireAll (lapsed setup) {registry := setup.registry} with
          generated := some (live setup)}) nofun ?_ ?_ rfl rfl ?_⟩
      · have hz := List.map_fst_zip (generate_length hgen).ge
        rw [←congrArg (List.map Request.requestId) hz,List.map_map,List.map_map]
        rfl
      · intro request hr response hm
        obtain ⟨⟨other,result⟩,hz,he⟩ := List.mem_map.mp hm
        obtain ⟨hid,rfl⟩ := Prod.mk.inj he
        obtain rfl := request_unique (live_sublist.subset (List.of_mem_zip hz).1)
          (live_sublist.subset hr) hid
        exact ⟨results,result,hgen,hz,rfl⟩
      · rw [execute,if_neg hn]
        simp only [hgen]
        rfl
    | error error =>
      refine ⟨.failed,(live setup).map (fun request =>
          (request.requestId,failure setup (live setup).length error request)),
        ran_settled (e := {expireAll (lapsed setup) {registry := setup.registry} with
          generated := some (live setup)}) nofun List.map_map ?_ rfl rfl ?_⟩
      · intro request hr response hm
        obtain ⟨other,ho,he⟩ := List.mem_map.mp hm
        obtain ⟨hid,rfl⟩ := Prod.mk.inj he
        obtain rfl := request_unique (live_sublist.subset ho) (live_sublist.subset hr) hid
        exact ⟨error,hgen,rfl⟩
      · rw [execute,if_neg hn]
        simp only [hgen]
        rfl

/-- The entries for one request, when there is one. -/
theorem filter_key {α : Type} {key : α → String} {l : List α} {a : α} (hn : (l.map key).Nodup)
    (ha : a∈l) : l.filter (fun b => key b=key a)=[a] := by
  induction l with
  | nil => exact absurd ha List.not_mem_nil
  | cons b rest ih =>
    obtain ⟨hb,hn⟩ := List.nodup_cons.mp hn
    rcases List.mem_cons.mp ha with rfl | ha
    · have hrest : rest.filter (fun b => key b=key a)=[] := by
        refine List.filter_eq_nil_iff.mpr (fun c hc he => hb ?_)
        rw [←of_decide_eq_true he]
        exact List.mem_map_of_mem hc
      simp only [List.filter_cons,decide_true,if_true,hrest]
    · have hne : key b≠key a := fun he => hb (he ▸ List.mem_map_of_mem ha)
      rw [List.filter_cons_of_neg (by rw [decide_eq_true_eq]; exact hne),ih hn ha]

/-- The entries for one request among those that meet a condition. -/
theorem filter_entry {responses : List (String×Response)} {id : String} {response : Response}
    (hn : (responses.map Prod.fst).Nodup) (hm : (id,response)∈responses) (p : String → Prop)
    [DecidablePred p] : (responses.filter (fun q => p q.1)).filter (fun q => q.1=id)=
      if p id then [(id,response)] else [] := by
  rw [List.filter_comm]
  have hk : responses.filter (fun q => q.1=id)=[(id,response)] := filter_key hn hm
  rw [hk]
  split
  · next hp => exact List.filter_cons_of_pos (decide_eq_true hp)
  · next hp => exact List.filter_cons_of_neg (by rw [decide_eq_true_eq]; exact hp)

/-- There are none for a request that is not among them. -/
theorem filter_absent {responses : List (String×Response)} {id : String}
    (hm : id∉responses.map Prod.fst) (p : String → Prop) [DecidablePred p] :
    (responses.filter (fun q => p q.1)).filter (fun q => q.1=id)=[] := by
  refine List.filter_eq_nil_iff.mpr (fun q hq he => hm ?_)
  rw [←of_decide_eq_true he]
  exact List.mem_map_of_mem (List.mem_filter.mp hq).1

/-- How often a loop counts a request. -/
theorem filter_counted {requests : List Request} (hs : requests.Sublist setup.batch.requests)
    (hr : request∈setup.batch.requests) (account : Account) :
    ((requests.map Request.requestId).map (fun id => (account,id))).filter
      (fun entry => entry.2=request.requestId)=
        if request∈requests then [(account,request.requestId)] else [] := by
  split
  · next hm =>
    have hn : (((requests.map Request.requestId).map (fun id => (account,id))).map
        Prod.snd).Nodup := by
      rw [List.map_map]
      exact (List.map_id _).symm ▸ ids_nodup hs
    have he : (account,request.requestId)∈
        (requests.map Request.requestId).map (fun id => (account,id)) :=
      List.mem_map_of_mem (List.mem_map_of_mem hm)
    exact filter_key hn he
  · next hm =>
    refine List.filter_eq_nil_iff.mpr (fun entry he hid => hm ?_)
    obtain ⟨id,hid',rfl⟩ := List.mem_map.mp he
    rw [←mem_ids hs hr,←of_decide_eq_true hid]
    exact hid'

section Ran

variable {account : Account} {responses : List (String×Response)}

/-- What the counters say of a request. -/
theorem Ran.counts (h : Ran setup account responses) (hr : request∈setup.batch.requests) :
    (execute setup).counted.filter (fun entry => entry.2=request.requestId)=
      (if request∈lapsed setup then [(.expired,request.requestId)] else [])++
        if request∈live setup then [(account,request.requestId)] else [] := by
  rw [h.counted,List.filter_append,filter_counted lapsed_sublist hr,
    filter_counted live_sublist hr]

/-- What the futures say of a request. -/
theorem Ran.settles (h : Ran setup account responses) :
    (execute setup).settled.filter (fun entry => entry.1=request.requestId)=
      (((lapsed setup).map (fun request => (request.requestId,expiry request))).filter
        (fun p => p.1∈setup.registry)).filter (fun entry => entry.1=request.requestId)++
      (responses.filter (fun p => p.1∈setup.registry ∧
        p.1∉(lapsed setup).map Request.requestId)).filter
          (fun entry => entry.1=request.requestId) := by
  rw [h.settled,List.filter_append]

theorem lapsed_ids : ((lapsed setup).map (fun request => (request.requestId,expiry request))).map
    Prod.fst=(lapsed setup).map Request.requestId := List.map_map

/-- The response of a request that was passed to the runner is not that of an
expired one. -/
theorem Matches.not_expiry {passed : List Request} {response : Response}
    (h : Matches setup passed request response account) (ho : account≠.expired)
    (hm : request∈passed) : response≠expiry request := by
  have hsize : response.batchSize=passed.length := by
    cases account with
    | expired => exact absurd rfl ho
    | completed =>
      obtain ⟨results,result,_,_,rfl⟩ := h
      rfl
    | failed =>
      obtain ⟨error,_,rfl⟩ := h
      rfl
  rintro rfl
  exact List.length_pos_of_mem hm |>.ne hsize

/-- A request that was passed to the runner and not expired has one outcome. -/
theorem Ran.live_outcome (h : Ran setup account responses) (hl : request∈live setup)
    (hx : request∉lapsed setup) : OneOutcome setup (execute setup) request := by
  have hr := live_sublist.subset hl
  have hxid : request.requestId∉(lapsed setup).map Request.requestId :=
    fun hm => hx ((mem_ids lapsed_sublist hr).mp hm)
  have hid : request.requestId∈responses.map Prod.fst := by
    rw [h.ids]
    exact List.mem_map_of_mem hl
  obtain ⟨⟨id,response⟩,hm,hid⟩ := List.mem_map.mp hid
  change id=request.requestId at hid
  subst hid
  have hsettled : (execute setup).settled.filter (fun entry => entry.1=request.requestId)=
      if request.requestId∈setup.registry then [(request.requestId,response)] else [] := by
    have hnone := filter_absent (by rw [lapsed_ids]; exact hxid) (fun id => id∈setup.registry)
    have hone := filter_entry (by rw [h.ids]; exact ids_nodup live_sublist) hm
      (fun id => id∈setup.registry ∧ id∉(lapsed setup).map Request.requestId)
    rw [h.settles,hnone,List.nil_append]
    refine hone.trans ?_
    simp only [hxid,not_false_iff,and_true]
  refine ⟨account,response,?_,hsettled,?_,fun he => absurd he h.other,fun _ hm => ?_⟩
  · rw [h.counts hr,if_neg hx,if_pos hl]
    rfl
  · rw [h.passed]
    exact h.matching request hl response hm
  · have hf : (request.requestId,expiry request)∈
        (execute setup).settled.filter (fun entry => entry.1=request.requestId) :=
      List.mem_filter.mpr ⟨hm,decide_eq_true rfl⟩
    rw [hsettled] at hf
    split at hf
    · have he := (Prod.mk.inj (List.mem_singleton.mp hf)).2
      exact (h.matching request hl response ‹_›).not_expiry h.other hl he.symm
    · exact absurd hf List.not_mem_nil

/-- A request that was expired and not passed to the runner has one outcome. -/
theorem Ran.lapsed_outcome (h : Ran setup account responses) (hx : request∈lapsed setup)
    (hl : request∉live setup) : OneOutcome setup (execute setup) request := by
  have hr := lapsed_sublist.subset hx
  have hid : request.requestId∉responses.map Prod.fst := by
    rw [h.ids]
    exact fun hm => hl ((mem_ids live_sublist hr).mp hm)
  have hpassed : request∉(execute setup).passed := by
    rw [h.passed]
    exact hl
  refine ⟨.expired,expiry request,?_,?_,rfl,fun _ => hpassed,fun hm => absurd hm hpassed⟩
  · rw [h.counts hr,if_pos hx,if_neg hl]
    rfl
  · have hnone := filter_absent hid
      (fun id => id∈setup.registry ∧ id∉(lapsed setup).map Request.requestId)
    have hone := filter_entry (by rw [lapsed_ids]; exact ids_nodup lapsed_sublist)
      (List.mem_map_of_mem (f := fun request : Request => (request.requestId,expiry request)) hx)
      (fun id => id∈setup.registry)
    rw [h.settles,hone,hnone,List.append_nil]

/-- A request that was expired and passed to the runner has two. -/
theorem Ran.two_outcomes (h : Ran setup account responses) (hx : request∈lapsed setup)
    (hl : request∈live setup) : ¬OneOutcome setup (execute setup) request := by
  rintro ⟨_,_,hc,_⟩
  rw [h.counts (live_sublist.subset hl),if_pos hx,if_pos hl] at hc
  exact absurd (congrArg List.length hc) nofun

end Ran

end Outcomes

/-- The clock runs on after the third reading. -/
def lateClock (k : ℕ) : ℚ := if k<3 then 2 else 4

theorem lateClock_monotone : Monotone lateClock := by
  intro j k h
  unfold lateClock
  by_cases hk : k<3
  · rw [if_pos hk,if_pos (Nat.lt_of_le_of_lt h hk)]
  · rw [if_neg hk]
    split <;> norm_num

theorem late_registry : ["first","second"].Nodup := by decide

/-- Two requests, of which the first one has expired when the worker looks,
and the second one when it looks again. -/
def lateSetup : Setup where
  registry := ["first","second"]
  batch := ⟨[
    {requestId := "first", prompt := "a", generation := GenerationSettings.defaultGeneration,
      enqueuedAt := 0, dequeuedAt := some 1,
      deadline := some 2},
    {requestId := "second", prompt := "b", generation := GenerationSettings.defaultGeneration,
      enqueuedAt := 0, dequeuedAt := some 1,
      deadline := some 3}],.maxSize⟩
  clock := lateClock
  runner prompts _ := .ok (prompts.map (fun prompt => ⟨prompt,1,1⟩))
  elapsed := 1
  clock_monotone := lateClock_monotone
  registry_nodup := late_registry
  requests_nodup := late_registry

end CudaForge.ExecuteOutcomes
