import CudaForge.BatchExecution

/-!
# Cancellations beside a batch

When nobody cancels a future between the question whether it is done and the
setting of it, no exception leaves a loop: every request is counted once, the
sweep gets to its end, and the futures nobody cancelled are as in the run
without cancellations. A cancellation in between fails every request behind
it, and counts requests twice.
-/

namespace CudaForge.CancelledFutures

open ServingTypes TransitionRuns ServingEngines BatchExecution

variable {ρ : Type} {setup : Setup ρ} {s t : Execution ρ}

/-- The identifiers of the live requests. -/
def liveIds (setup : Setup ρ) : List String := (live setup).map Request.requestId

/-- Live requests have different identifiers. -/
theorem liveIds_nodup (setup : Setup ρ) : (liveIds setup).Nodup :=
  setup.requests_nodup.sublist (List.filter_sublist.map _)

/-- The requests the worker has not counted yet. -/
def ahead (setup : Setup ρ) : Stage ρ → List String
  | .starting => liveIds setup
  | .generating => liveIds setup
  | .settling .expiring _ _ => liveIds setup
  | .settling _ .taking rest => rest.map Prod.fst
  | .settling _ _ rest => (rest.map Prod.fst).tail
  | .ended => []
  | .escaped => []

/-- The worker has not come to the results yet. -/
def early : Stage ρ → Bool
  | .starting => true
  | .generating => true
  | .settling .expiring _ _ => true
  | _ => false

/-- The worker is in a loop of this mode. -/
def inMode (mode : Mode) : Stage ρ → Bool
  | .settling other _ _ => other==mode
  | _ => false

/-- Every live request is counted once, or still ahead. -/
structure Counted (setup : Setup ρ) (s : Execution ρ) : Prop where
  /-- Together they are the live requests. -/
  total : s.completed++s.failed++ahead setup s.worker=liveIds setup
  /-- Nothing is counted before the results. -/
  untouched : early s.worker=true → s.completed=[] ∧ s.failed=[]
  /-- Nothing has failed while completions are counted. -/
  completing : inMode .completing s.worker=true → s.failed=[]
  /-- Nothing was completed while failures are counted. -/
  failing : inMode .failing s.worker=true → s.completed=[]

/-- What the sweep has gone through is done. -/
def Swept (s : Execution ρ) : Prop :=
  match s.sweep with
  | .idle => True
  | .testing rest => ∀ id∈s.taken, id∈rest ∨ (s.futures id).done=true
  | .setting rest => rest≠[] ∧ ∀ id∈s.taken, id∈rest ∨ (s.futures id).done=true
  | .returned => ∀ id∈s.taken, (s.futures id).done=true
  | .escaped => False

/-- What holds when nobody cancels between a test and a set. -/
structure Orderly (setup : Setup ρ) (s : Execution ρ) : Prop where
  /-- A future found pending stays pending until it is set. -/
  held : ∀ id, s.isSetting id=true → (s.futures id).done=false
  /-- The sweep comes behind the worker. -/
  turns : s.sweep=.idle ∨ s.worker.over=true
  /-- No exception leaves `_execute`. -/
  contained : s.worker≠.escaped
  counted : Counted setup s
  swept : Swept s

theorem ahead_goOn {mode : Mode} (hm : mode≠.expiring) (rest : List (String×Outcome ρ)) :
    ahead setup (goOn setup mode rest)=rest.map Prod.fst := by
  cases rest with
  | nil =>
    have hn : ¬(mode=.expiring ∧ live setup≠[]) := fun h => hm h.1
    rw [goOn,if_neg hn]
    rfl
  | cons pair rest =>
    cases mode with
    | expiring => exact absurd rfl hm
    | completing => rfl
    | failing => rfl

theorem ahead_goOn_expiring (rest : List (String×Outcome ρ)) :
    ahead setup (goOn setup .expiring rest)=liveIds setup := by
  cases rest with
  | nil =>
    rw [goOn]
    split
    · rfl
    · next hn =>
      have hl : live setup=[] := not_not.mp (fun h => hn ⟨rfl,h⟩)
      rw [liveIds,hl]
      rfl
  | cons pair rest => rfl

/-- Going on with a loop keeps its mode. -/
theorem inMode_goOn {mode other : Mode} {rest : List (String×Outcome ρ)}
    (h : inMode other (goOn setup mode rest)=true) : mode=other := by
  cases rest with
  | nil =>
    rw [goOn] at h
    split at h <;> cases h
  | cons pair rest => exact beq_iff_eq.mp h

theorem early_goOn {mode : Mode} {rest : List (String×Outcome ρ)}
    (h : early (goOn setup mode rest)=true) : mode=.expiring := by
  cases rest with
  | nil =>
    rw [goOn] at h
    split at h
    · next hm => exact hm.1
    · cases h
  | cons pair rest =>
    cases mode with
    | expiring => rfl
    | completing => cases h
    | failing => cases h

theorem goOn_contained (mode : Mode) (rest : List (String×Outcome ρ)) :
    goOn setup mode rest≠.escaped := by
  cases rest with
  | nil =>
    rw [goOn]
    split <;> exact nofun
  | cons pair rest => exact nofun

/-- On its way to the next future the worker sets none. -/
theorem goOn_isSetting (mode : Mode) (rest : List (String×Outcome ρ)) (id : String) :
    (goOn setup mode rest).isSetting id=false := by
  cases rest with
  | nil =>
    rw [goOn]
    split <;> rfl
  | cons pair rest => rfl

theorem failures_ids (error : String) :
    (failures setup error).map Prod.fst=liveIds setup := by
  rw [failures,List.map_map]
  rfl

theorem completions_ids {results : List ρ} (h : results.length=(live setup).length) :
    (completions setup results).map Prod.fst=liveIds setup := by
  rw [completions,List.map_map,liveIds]
  have hz : ((live setup).zip results).map Prod.fst=live setup := List.map_fst_zip h.ge
  nth_rewrite 2 [←hz]
  rw [List.map_map]
  rfl

/-- Counting a request moves it from ahead into its count. -/
theorem Counted.take {mode : Mode} {id : String} {outcome : Outcome ρ}
    {rest : List (String×Outcome ρ)} {worker : Stage ρ} {registry : List String}
    (h : Counted setup s) (hw : s.worker=.settling mode .taking ((id,outcome)::rest))
    (hx : worker=.settling mode .testing ((id,outcome)::rest) ∨ worker=goOn setup mode rest) :
    Counted setup {s.record mode id with registry := registry, worker := worker} := by
  have hahead : mode≠.expiring → ahead setup worker=rest.map Prod.fst := by
    intro hm
    rcases hx with rfl | rfl
    · cases mode with
      | expiring => exact absurd rfl hm
      | completing => rfl
      | failing => rfl
    · exact ahead_goOn hm rest
  have hmode : ∀ other, inMode other worker=true → mode=other := by
    intro other ho
    rcases hx with rfl | rfl
    · exact beq_iff_eq.mp ho
    · exact inMode_goOn ho
  have hearly : early worker=true → mode=.expiring := by
    intro he
    rcases hx with rfl | rfl
    · cases mode with
      | expiring => rfl
      | completing => cases he
      | failing => cases he
    · exact early_goOn he
  have htotal := h.total
  rw [hw] at htotal
  cases mode with
  | expiring =>
    have hboth := h.untouched (hw ▸ rfl)
    have ha : ahead setup worker=liveIds setup := by
      rcases hx with rfl | rfl
      · rfl
      · exact ahead_goOn_expiring rest
    refine ⟨?_,fun _ => hboth,fun hc => ?_,fun hc => ?_⟩
    · simp only [Execution.record,ha,hboth.1,hboth.2,List.nil_append]
    · cases hmode _ hc
    · cases hmode _ hc
  | completing =>
    have hf := h.completing (hw ▸ rfl)
    refine ⟨?_,fun he => ?_,fun _ => hf,fun hc => ?_⟩
    · have ha := hahead Mode.noConfusion
      rw [←htotal]
      simp only [Execution.record]
      rw [ha,hf]
      simp only [ahead,List.map_cons,List.append_nil,List.append_assoc,List.singleton_append]
    · cases hearly he
    · cases hmode _ hc
  | failing =>
    have hc := h.failing (hw ▸ rfl)
    refine ⟨?_,fun he => ?_,fun hm => ?_,fun _ => hc⟩
    · have ha := hahead Mode.noConfusion
      rw [←htotal]
      simp only [Execution.record]
      rw [ha,hc]
      simp only [ahead,List.map_cons,List.nil_append,List.append_assoc,List.singleton_append]
    · cases hearly he
    · cases hmode _ hm

/-- Behind the registry a call counts nothing more. -/
theorem Counted.move {mode : Mode} {point : Point} {pair : String×Outcome ρ}
    {rest : List (String×Outcome ρ)} {worker : Stage ρ} {futures : String → Future ρ}
    (h : Counted setup s) (hw : s.worker=.settling mode point (pair::rest))
    (hp : point≠.taking)
    (hx : worker=.settling mode .setting (pair::rest) ∨ worker=goOn setup mode rest) :
    Counted setup {s with futures := futures, worker := worker} := by
  have hold : mode≠.expiring → ahead setup s.worker=rest.map Prod.fst := by
    intro hm
    rw [hw]
    cases mode with
    | expiring => exact absurd rfl hm
    | completing => cases point <;> first | rfl | exact absurd rfl hp
    | failing => cases point <;> first | rfl | exact absurd rfl hp
  have hsame : ahead setup worker=ahead setup s.worker := by
    cases mode with
    | expiring =>
      rw [hw]
      rcases hx with rfl | rfl
      · rfl
      · exact ahead_goOn_expiring rest
    | completing =>
      rw [hold Mode.noConfusion]
      rcases hx with rfl | rfl
      · rfl
      · exact ahead_goOn Mode.noConfusion rest
    | failing =>
      rw [hold Mode.noConfusion]
      rcases hx with rfl | rfl
      · rfl
      · exact ahead_goOn Mode.noConfusion rest
  have hmode : ∀ other, inMode other worker=true → inMode other s.worker=true := by
    intro other ho
    rw [hw]
    refine beq_iff_eq.mpr ?_
    rcases hx with rfl | rfl
    · exact beq_iff_eq.mp ho
    · exact inMode_goOn ho
  have hearly : early worker=true → early s.worker=true := by
    intro he
    rw [hw]
    rcases hx with rfl | rfl
    · cases mode with
      | expiring => rfl
      | completing => cases he
      | failing => cases he
    · rw [early_goOn he]
      rfl
  refine ⟨?_,fun he => h.untouched (hearly he),fun hc => h.completing (hmode _ hc),
    fun hc => h.failing (hmode _ hc)⟩
  rw [←h.total]
  exact congrArg (fun ids => s.completed++s.failed++ids) hsame

/-- The results open one loop over the live requests. -/
theorem Counted.open {mode : Mode} {rest : List (String×Outcome ρ)} (h : Counted setup s)
    (he : early s.worker=true) (hm : mode≠.expiring) (hr : rest.map Prod.fst=liveIds setup) :
    Counted setup {s with worker := goOn setup mode rest} := by
  obtain ⟨hc,hf⟩ := h.untouched he
  refine ⟨?_,fun _ => ⟨hc,hf⟩,fun _ => hf,fun _ => hc⟩
  rw [hc,hf,ahead_goOn hm,hr]
  rfl

/-- The runner's call opens one loop over the live requests. -/
theorem generated_opens (setup : Setup ρ) : ∃ mode rest, generated setup=goOn setup mode rest ∧
    mode≠.expiring ∧ rest.map Prod.fst=liveIds setup := by
  rw [generated]
  cases setup.results with
  | error error => exact ⟨.failing,_,rfl,Mode.noConfusion,failures_ids error⟩
  | ok results =>
    by_cases hl : results.length=(live setup).length
    · exact ⟨.completing,_,if_pos hl,Mode.noConfusion,completions_ids hl⟩
    · exact ⟨.failing,_,if_neg hl,Mode.noConfusion,failures_ids _⟩

/-- What a step does when nobody cancels between a test and a set. -/
inductive Effect (setup : Setup ρ) (s : Execution ρ) : Execution ρ → Prop
  /-- A caller cancels a pending future. -/
  | cancels {id : String} (hn : s.isSetting id=false) : Effect setup s (s.put id .cancelled)
  /-- A caller finds its future done. -/
  | stays : Effect setup s s
  /-- The worker starts. -/
  | starts (hw : s.worker=.starting) :
      Effect setup s {s with worker := goOn setup .expiring (expiries setup)}
  /-- The runner's call ends. -/
  | generates (hw : s.worker=.generating) : Effect setup s {s with worker := generated setup}
  /-- The worker takes a future from the registry. -/
  | takes {mode : Mode} {id : String} {outcome : Outcome ρ} {rest : List (String×Outcome ρ)}
      (hw : s.worker=.settling mode .taking ((id,outcome)::rest)) (hm : id∈s.registry) :
      Effect setup s {s.record mode id with
        registry := s.registry.erase id
        worker := .settling mode .testing ((id,outcome)::rest)}
  /-- The worker does not find a future. -/
  | misses {mode : Mode} {id : String} {outcome : Outcome ρ} {rest : List (String×Outcome ρ)}
      (hw : s.worker=.settling mode .taking ((id,outcome)::rest)) (hm : id∉s.registry) :
      Effect setup s {s.record mode id with worker := goOn setup mode rest}
  /-- The worker finds a future pending. -/
  | finds {mode : Mode} {id : String} {outcome : Outcome ρ} {rest : List (String×Outcome ρ)}
      (hw : s.worker=.settling mode .testing ((id,outcome)::rest))
      (hd : (s.futures id).done=false) :
      Effect setup s {s with worker := .settling mode .setting ((id,outcome)::rest)}
  /-- The worker finds a future done. -/
  | skips {mode : Mode} {id : String} {outcome : Outcome ρ} {rest : List (String×Outcome ρ)}
      (hw : s.worker=.settling mode .testing ((id,outcome)::rest))
      (hd : (s.futures id).done=true) :
      Effect setup s {s with worker := goOn setup mode rest}
  /-- The worker sets a future. -/
  | sets {mode : Mode} {id : String} {outcome : Outcome ρ} {rest : List (String×Outcome ρ)}
      (hw : s.worker=.settling mode .setting ((id,outcome)::rest))
      (hd : (s.futures id).done=false) :
      Effect setup s {s.put id (.settled outcome) with worker := goOn setup mode rest}
  /-- The shutdown takes the registry. -/
  | sweeps (hs : s.sweep=.idle) (ho : s.worker.over=true) :
      Effect setup s {s with registry := [], taken := s.registry, sweep := .testing s.registry}
  /-- The sweep has gone through. -/
  | ends (hs : s.sweep=.testing []) : Effect setup s {s with sweep := .returned}
  /-- The sweep finds a future pending. -/
  | meets {id : String} {rest : List String} (hs : s.sweep=.testing (id::rest))
      (hd : (s.futures id).done=false) : Effect setup s {s with sweep := .setting (id::rest)}
  /-- The sweep finds a future done. -/
  | leaves {id : String} {rest : List String} (hs : s.sweep=.testing (id::rest))
      (hd : (s.futures id).done=true) : Effect setup s {s with sweep := .testing rest}
  /-- The sweep sets a future. -/
  | abandons {id : String} {rest : List String} (hs : s.sweep=.setting (id::rest))
      (hd : (s.futures id).done=false) :
      Effect setup s {s.put id (.settled .abandoned) with sweep := .testing rest}

theorem isSetting_worker {mode : Mode} {id : String} {outcome : Outcome ρ}
    {rest : List (String×Outcome ρ)}
    (h : s.worker=.settling mode .setting ((id,outcome)::rest)) : s.isSetting id=true := by
  rw [Execution.isSetting,h]
  exact Bool.or_eq_true_iff.mpr (Or.inl (beq_self_eq_true id))

theorem isSetting_sweep {id : String} {rest : List String} (h : s.sweep=.setting (id::rest)) :
    s.isSetting id=true := by
  rw [Execution.isSetting,h]
  exact Bool.or_eq_true_iff.mpr (Or.inr (beq_self_eq_true id))

/-- A step of the worker. -/
theorem work_effect (h : Orderly setup s) (hs : s.work setup=some t) : Effect setup s t := by
  rw [Execution.work] at hs
  split at hs
  · next hw =>
    rw [←Option.some.inj hs]
    exact .starts hw
  · next hw =>
    rw [←Option.some.inj hs]
    exact .generates hw
  · next mode id outcome rest hw =>
    rw [←Option.some.inj hs]
    split
    · next hm => exact .takes hw hm
    · next hm => exact .misses hw hm
  · next mode id outcome rest hw =>
    rw [←Option.some.inj hs]
    split
    · next hd => exact .skips hw hd
    · next hd => exact .finds hw (Bool.eq_false_iff.mpr hd)
  · next mode id outcome rest hw =>
    rw [←Option.some.inj hs]
    have hd := h.held id (isSetting_worker hw)
    rw [if_neg (Bool.eq_false_iff.mp hd)]
    exact .sets hw hd
  · cases hs
  · cases hs
  · cases hs

/-- A step of the sweep. -/
theorem sweepOn_effect (h : Orderly setup s) (hs : s.sweepOn=some t) : Effect setup s t := by
  rw [Execution.sweepOn] at hs
  split at hs
  · next hw =>
    rw [←Option.some.inj hs]
    exact .ends hw
  · next id rest hw =>
    rw [←Option.some.inj hs]
    split
    · next hd => exact .leaves hw hd
    · next hd => exact .meets hw (Bool.eq_false_iff.mpr hd)
  · next id rest hw =>
    rw [←Option.some.inj hs]
    have hd := h.held id (isSetting_sweep hw)
    rw [if_neg (Bool.eq_false_iff.mp hd)]
    exact .abandons hw hd
  · cases hs
  · cases hs
  · cases hs
  · cases hs

/-- Every step has one of these effects. -/
theorem step_effect {action : Action} (h : Orderly setup s) (ha : apart s action=true)
    (hs : s.step setup action=some t) : Effect setup s t := by
  cases action with
  | cancel id =>
    rw [←Option.some.inj hs]
    split
    · exact .stays
    · exact .cancels ((Bool.not_eq_true' _).mp ha)
  | work => exact work_effect h hs
  | sweep =>
    simp only [Execution.step] at hs
    split at hs
    · next hi =>
      obtain ⟨ho,ht⟩ := Option.ite_none_right_eq_some.mp hs
      rw [←Option.some.inj ht]
      exact .sweeps hi ho
    · cases hs
  | sweepOn => exact sweepOn_effect h hs

/-- A future that is done stays done. -/
theorem done_update {futures : String → Future ρ} {future : Future ρ} {id other : String}
    (hf : future.done=true) (h : other=id ∨ (futures other).done=true) :
    (Function.update futures id future other).done=true := by
  by_cases he : other=id
  · rw [he,Function.update_self]
    exact hf
  · rw [Function.update_of_ne he]
    exact h.resolve_left he

/-- A worker that is not over means that no sweep has begun. -/
theorem Orderly.idle (h : Orderly setup s) (hw : s.worker.over=false) : s.sweep=.idle :=
  h.turns.resolve_right (fun ho => Bool.noConfusion (hw.symm.trans ho))

/-- A step of the worker that comes to a place where it sets nothing, or to
one whose future it found pending. -/
theorem Orderly.worked (h : Orderly setup s) (hw : s.worker.over=false) (hsw : t.sweep=s.sweep)
    (hh : ∀ id, t.worker.isSetting id=true → (t.futures id).done=false)
    (hc : t.worker≠.escaped) (hcount : Counted setup t) : Orderly setup t := by
  have hi : t.sweep=.idle := hsw.trans (h.idle hw)
  refine ⟨fun id hs => ?_,Or.inl hi,hc,hcount,?_⟩
  · rw [Execution.isSetting,hi,Bool.or_eq_true_iff] at hs
    exact hh id (hs.resolve_right (by exact nofun))
  · rw [Swept,hi]
    trivial

/-- A future changes in a way that leaves it done, and nobody was about to set
it. -/
theorem Orderly.put {id : String} {future : Future ρ} (h : Orderly setup s)
    (hf : future.done=true) (hn : s.isSetting id=false) : Orderly setup (s.put id future) := by
  refine ⟨fun other hs => ?_,h.turns,h.contained,?_,?_⟩
  · have ho : other≠id := fun he => Bool.noConfusion (hn.symm.trans (he ▸ hs))
    have hd : (s.put id future).futures other=s.futures other := Function.update_of_ne ho _ _
    rw [hd]
    exact h.held other hs
  · exact ⟨h.counted.total,h.counted.untouched,h.counted.completing,h.counted.failing⟩
  · have hsw := h.swept
    simp only [Swept,Execution.put] at hsw ⊢
    split
    · trivial
    · next rest hr =>
      rw [hr] at hsw
      exact fun other hm => (hsw other hm).imp_right (fun hd => done_update hf (Or.inr hd))
    · next rest hr =>
      rw [hr] at hsw
      exact ⟨hsw.1,fun other hm =>
        (hsw.2 other hm).imp_right (fun hd => done_update hf (Or.inr hd))⟩
    · next hr =>
      rw [hr] at hsw
      exact fun other hm => done_update hf (Or.inr (hsw other hm))
    · next hr =>
      rw [hr] at hsw
      exact hsw

/-- A step of the sweep that comes to a place where it sets nothing, or to one
whose future it found pending. -/
theorem Orderly.swepts (h : Orderly setup s) (ho : s.worker.over=true) (hw : t.worker=s.worker)
    (hh : ∀ id, t.sweep.isSetting id=true → (t.futures id).done=false)
    (hc : t.completed=s.completed ∧ t.failed=s.failed) (hsw : Swept t) : Orderly setup t := by
  refine ⟨fun id hs => ?_,Or.inr (hw ▸ ho),hw ▸ h.contained,?_,hsw⟩
  · have hn : s.worker.isSetting id=false := by
      cases hx : s.worker with
      | settling => rw [hx] at ho; cases ho
      | starting => rfl
      | generating => rfl
      | ended => rfl
      | escaped => rfl
    rw [Execution.isSetting,hw,hn,Bool.false_or] at hs
    exact hh id hs
  · refine ⟨?_,?_,?_,?_⟩
    · rw [hc.1,hc.2,hw]
      exact h.counted.total
    · rw [hc.1,hc.2,hw]
      exact h.counted.untouched
    · rw [hc.2,hw]
      exact h.counted.completing
    · rw [hc.1,hw]
      exact h.counted.failing

/-- A sweep under way comes behind the worker. -/
theorem Orderly.over (h : Orderly setup s) (hs : s.sweep≠.idle) : s.worker.over=true :=
  h.turns.resolve_left hs

/-- Every step keeps the order. -/
theorem Orderly.effect (h : Orderly setup s) (he : Effect setup s t) : Orderly setup t := by
  have hnone : ∀ (mode : Mode) (rest : List (String×Outcome ρ)) (id : String)
      (f : String → Future ρ),
      (goOn setup mode rest).isSetting id=true → (f id).done=false :=
    fun mode rest id _ hs => absurd ((goOn_isSetting mode rest id).symm.trans hs) Bool.noConfusion
  cases he with
  | cancels hn => exact h.put rfl hn
  | stays => exact h
  | starts hw =>
    refine h.worked (by rw [hw]; rfl) rfl (fun id => hnone _ _ id _) (goOn_contained _ _) ?_
    have hb := h.counted.untouched (hw ▸ rfl)
    refine ⟨?_,fun _ => hb,fun hc => ?_,fun hc => ?_⟩
    · rw [hb.1,hb.2,ahead_goOn_expiring]
      rfl
    · cases inMode_goOn hc
    · cases inMode_goOn hc
  | generates hw =>
    obtain ⟨mode,rest,hg,hm,hr⟩ := generated_opens setup
    rw [hg]
    exact h.worked (by rw [hw]; rfl) rfl (fun id => hnone _ _ id _) (goOn_contained _ _)
      (h.counted.open (hw ▸ rfl) hm hr)
  | @takes mode id outcome rest hw hm =>
    have hsw : (s.record mode id).sweep=s.sweep := by cases mode <;> rfl
    exact h.worked (by rw [hw]; rfl) hsw nofun nofun (h.counted.take hw (Or.inl rfl))
  | @misses mode id outcome rest hw hm =>
    have hsw : (s.record mode id).sweep=s.sweep := by cases mode <;> rfl
    have hreg : (s.record mode id).registry=s.registry := by cases mode <;> rfl
    have hc : Counted setup {s.record mode id with
        registry := s.registry, worker := goOn setup mode rest} := h.counted.take hw (Or.inr rfl)
    rw [←hreg] at hc
    exact h.worked (by rw [hw]; rfl) hsw (fun id => hnone _ _ id _) (goOn_contained _ _) hc
  | @finds mode id outcome rest hw hd =>
    refine h.worked (by rw [hw]; rfl) rfl (fun other hs => ?_) nofun
      (h.counted.move hw Point.noConfusion (Or.inl rfl))
    exact beq_iff_eq.mp hs ▸ hd
  | @skips mode id outcome rest hw hd =>
    exact h.worked (by rw [hw]; rfl) rfl (fun id => hnone _ _ id _) (goOn_contained _ _)
      (h.counted.move hw Point.noConfusion (Or.inr rfl))
  | @sets mode id outcome rest hw hd =>
    exact h.worked (by rw [hw]; rfl) rfl (fun id => hnone _ _ id _) (goOn_contained _ _)
      (h.counted.move hw Point.noConfusion (Or.inr rfl))
  | sweeps hs ho => exact h.swepts ho rfl nofun ⟨rfl,rfl⟩ (fun id hm => Or.inl hm)
  | ends hs =>
    have hsw := h.swept
    rw [Swept,hs] at hsw
    exact h.swepts (h.over (by rw [hs]; exact nofun)) rfl nofun ⟨rfl,rfl⟩
      (fun id hm => (hsw id hm).resolve_left List.not_mem_nil)
  | @meets id rest hs hd =>
    have hsw := h.swept
    rw [Swept,hs] at hsw
    exact h.swepts (h.over (by rw [hs]; exact nofun)) rfl
      (fun other ho => beq_iff_eq.mp ho ▸ hd) ⟨rfl,rfl⟩ ⟨List.cons_ne_nil id rest,hsw⟩
  | @leaves id rest hs hd =>
    have hsw := h.swept
    rw [Swept,hs] at hsw
    refine h.swepts (h.over (by rw [hs]; exact nofun)) rfl nofun ⟨rfl,rfl⟩ (fun other hm => ?_)
    rcases hsw other hm with hin | hdone
    · rcases List.mem_cons.mp hin with rfl | hrest
      · exact Or.inr hd
      · exact Or.inl hrest
    · exact Or.inr hdone
  | @abandons id rest hs hd =>
    have hsw := h.swept
    rw [Swept,hs] at hsw
    refine h.swepts (h.over (by rw [hs]; exact nofun)) rfl nofun ⟨rfl,rfl⟩ (fun other hm => ?_)
    rcases hsw.2 other hm with hin | hdone
    · rcases List.mem_cons.mp hin with rfl | hrest
      · exact Or.inr (done_update rfl (Or.inl rfl))
      · exact Or.inl hrest
    · exact Or.inr (done_update rfl (Or.inr hdone))

/-- Nothing has happened yet. -/
theorem begin_orderly (setup : Setup ρ) : Orderly setup (begin setup) :=
  ⟨nofun,Or.inl rfl,nofun,⟨rfl,fun _ => ⟨rfl,rfl⟩,nofun,nofun⟩,trivial⟩

/-- The order holds in every run in which nobody cancels in between. -/
theorem reaches_orderly
    (h : ((executionMachine setup).guarded (fun s action => apart s action=true)).Reaches s) :
    Orderly setup s :=
  h.invariant (fun _ hs => hs ▸ begin_orderly setup)
    (fun _ _ _ ho hs => ho.effect (step_effect ho hs.1 hs.2))

/-- The runs in which nobody cancels. -/
def undisturbed (setup : Setup ρ) : Machine (Execution ρ) Action :=
  (executionMachine setup).guarded (fun s action => quiet s action=true)

/-- The same place with other futures. -/
def withFutures (s : Execution ρ) (futures : String → Future ρ) : Execution ρ :=
  {s with futures := futures}

/-- The futures nobody cancelled are these, and none of these is cancelled. -/
structure Agrees (s : Execution ρ) (futures : String → Future ρ) : Prop where
  same : ∀ id, s.futures id=futures id ∨ s.futures id=.cancelled
  uncancelled : ∀ id, futures id≠.cancelled

/-- A step of the worker without cancellations. -/
theorem undisturbed_work {u v : Execution ρ} (h : (undisturbed setup).Reaches u)
    (hs : u.work setup=some v) : (undisturbed setup).Reaches v :=
  h.step (a := .work) ⟨rfl,hs⟩

/-- The shutdown takes the registry without cancellations. -/
theorem undisturbed_sweep {u v : Execution ρ} (h : (undisturbed setup).Reaches u)
    (hs : u.step setup .sweep=some v) : (undisturbed setup).Reaches v :=
  h.step (a := .sweep) ⟨rfl,hs⟩

/-- A step of the sweep without cancellations. -/
theorem undisturbed_sweepOn {u v : Execution ρ} (h : (undisturbed setup).Reaches u)
    (hs : u.sweepOn=some v) : (undisturbed setup).Reaches v :=
  h.step (a := .sweepOn) ⟨rfl,hs⟩

/-- A future found pending is pending without cancellations too. -/
theorem Agrees.pending {futures : String → Future ρ} {id : String} (h : Agrees s futures)
    (hd : (s.futures id).done=false) : (futures id).done=false := by
  rcases h.same id with he | he
  · exact he ▸ hd
  · rw [he] at hd
    cases hd

/-- A future that is done and would be pending was cancelled. -/
theorem Agrees.cancelled {futures : String → Future ρ} {id : String} (h : Agrees s futures)
    (hd : (s.futures id).done=true) (hf : (futures id).done=false) :
    s.futures id=.cancelled := by
  refine (h.same id).resolve_left (fun he => ?_)
  rw [he,hf] at hd
  cases hd

/-- Both futures are set. -/
theorem Agrees.set {futures : String → Future ρ} (h : Agrees s futures) (id : String)
    (outcome : Outcome ρ) : Agrees (s.put id (.settled outcome))
      (Function.update futures id (.settled outcome)) := by
  constructor
  · intro other
    by_cases he : other=id
    · rw [he,Function.update_self]
      exact Or.inl (Function.update_self id _ _)
    · rw [Function.update_of_ne he]
      have hs : (s.put id (.settled outcome)).futures other=s.futures other :=
        Function.update_of_ne he _ _
      rw [hs]
      exact h.same other
  · intro other
    by_cases he : other=id
    · rw [he,Function.update_self]
      exact nofun
    · rw [Function.update_of_ne he]
      exact h.uncancelled other

/-- The future of a cancelled request is set without cancellations. -/
theorem Agrees.overtake {futures : String → Future ρ} {id : String} (h : Agrees s futures)
    (hc : s.futures id=.cancelled) (outcome : Outcome ρ) :
    Agrees s (Function.update futures id (.settled outcome)) := by
  constructor
  · intro other
    by_cases he : other=id
    · rw [he]
      exact Or.inr hc
    · rw [Function.update_of_ne he]
      exact h.same other
  · exact (h.set id outcome).uncancelled

/-- A caller cancels a future. -/
theorem Agrees.cancel {futures : String → Future ρ} (h : Agrees s futures) (id : String) :
    Agrees (s.put id .cancelled) futures := by
  constructor
  · intro other
    by_cases he : other=id
    · rw [he]
      exact Or.inr (Function.update_self id _ _)
    · have hs : (s.put id .cancelled).futures other=s.futures other :=
        Function.update_of_ne he _ _
      rw [hs]
      exact h.same other
  · exact h.uncancelled

/-- Without cancellations the worker passes a future it is to set. -/
theorem undisturbed_sets {futures : String → Future ρ} {mode : Mode} {id : String}
    {outcome : Outcome ρ} {rest : List (String×Outcome ρ)}
    (h : (undisturbed setup).Reaches (withFutures s futures))
    (hw : s.worker=.settling mode .setting ((id,outcome)::rest))
    (hf : (futures id).done=false) : (undisturbed setup).Reaches
      (withFutures {s with worker := goOn setup mode rest}
        (Function.update futures id (.settled outcome))) := by
  refine undisturbed_work h ?_
  have hwork : (withFutures s futures).worker=.settling mode .setting ((id,outcome)::rest) := hw
  simp only [Execution.work,hwork]
  exact congrArg some (if_neg (Bool.eq_false_iff.mp hf))

/-- Without cancellations the worker finds a future pending. -/
theorem undisturbed_finds {futures : String → Future ρ} {mode : Mode} {id : String}
    {outcome : Outcome ρ} {rest : List (String×Outcome ρ)}
    (h : (undisturbed setup).Reaches (withFutures s futures))
    (hw : s.worker=.settling mode .testing ((id,outcome)::rest))
    (hf : (futures id).done=false) : (undisturbed setup).Reaches
      (withFutures {s with worker := .settling mode .setting ((id,outcome)::rest)} futures) := by
  refine undisturbed_work h ?_
  have hwork : (withFutures s futures).worker=.settling mode .testing ((id,outcome)::rest) := hw
  have hfalse : ((withFutures s futures).futures id).done=false := hf
  simp only [Execution.work,hwork,hfalse]
  rfl

/-- Without cancellations the sweep sets a future. -/
theorem undisturbed_abandons {futures : String → Future ρ} {id : String} {rest : List String}
    (h : (undisturbed setup).Reaches (withFutures s futures))
    (hs : s.sweep=.setting (id::rest)) (hf : (futures id).done=false) :
    (undisturbed setup).Reaches (withFutures {s with sweep := .testing rest}
      (Function.update futures id (.settled .abandoned))) := by
  refine undisturbed_sweepOn h ?_
  have hsweep : (withFutures s futures).sweep=.setting (id::rest) := hs
  simp only [Execution.sweepOn,hsweep]
  exact congrArg some (if_neg (Bool.eq_false_iff.mp hf))

/-- Without cancellations the sweep finds a future pending. -/
theorem undisturbed_meets {futures : String → Future ρ} {id : String} {rest : List String}
    (h : (undisturbed setup).Reaches (withFutures s futures))
    (hs : s.sweep=.testing (id::rest)) (hf : (futures id).done=false) :
    (undisturbed setup).Reaches (withFutures {s with sweep := .setting (id::rest)} futures) := by
  refine undisturbed_sweepOn h ?_
  have hsweep : (withFutures s futures).sweep=.testing (id::rest) := hs
  have hfalse : ((withFutures s futures).futures id).done=false := hf
  simp only [Execution.sweepOn,hsweep,hfalse]
  rfl

/-- Every step is followed without cancellations. -/
theorem Agrees.follows {futures : String → Future ρ} (h : Agrees s futures)
    (hr : (undisturbed setup).Reaches (withFutures s futures)) (he : Effect setup s t) :
    ∃ later, (undisturbed setup).Reaches (withFutures t later) ∧ Agrees t later := by
  cases he with
  | @cancels id hn => exact ⟨futures,hr,h.cancel id⟩
  | stays => exact ⟨futures,hr,h⟩
  | starts hw =>
    refine ⟨futures,undisturbed_work hr ?_,h.same,h.uncancelled⟩
    have hwork : (withFutures s futures).worker=.starting := hw
    simp only [Execution.work,hwork]
    rfl
  | generates hw =>
    refine ⟨futures,undisturbed_work hr ?_,h.same,h.uncancelled⟩
    have hwork : (withFutures s futures).worker=.generating := hw
    simp only [Execution.work,hwork]
    rfl
  | @takes mode id outcome rest hw hm =>
    have hsame : (s.record mode id).futures=s.futures := by cases mode <;> rfl
    refine ⟨futures,undisturbed_work hr ?_,fun other => ?_,h.uncancelled⟩
    · have hwork : (withFutures s futures).worker=.settling mode .taking ((id,outcome)::rest) := hw
      have hreg : id∈(withFutures s futures).registry := hm
      simp only [Execution.work,hwork,if_pos hreg]
      cases mode <;> rfl
    · have hs := h.same other
      rw [←hsame] at hs
      exact hs
  | @misses mode id outcome rest hw hm =>
    have hsame : (s.record mode id).futures=s.futures := by cases mode <;> rfl
    refine ⟨futures,undisturbed_work hr ?_,fun other => ?_,h.uncancelled⟩
    · have hwork : (withFutures s futures).worker=.settling mode .taking ((id,outcome)::rest) := hw
      have hreg : id∉(withFutures s futures).registry := hm
      simp only [Execution.work,hwork,if_neg hreg]
      cases mode <;> rfl
    · have hs := h.same other
      rw [←hsame] at hs
      exact hs
  | finds hw hd =>
    exact ⟨futures,undisturbed_finds hr hw (h.pending hd),h.same,h.uncancelled⟩
  | @skips mode id outcome rest hw hd =>
    by_cases hf : (futures id).done=true
    · refine ⟨futures,undisturbed_work hr ?_,h.same,h.uncancelled⟩
      have hwork : (withFutures s futures).worker=.settling mode .testing ((id,outcome)::rest) :=
        hw
      have htrue : ((withFutures s futures).futures id).done=true := hf
      simp only [Execution.work,hwork,htrue]
      rfl
    · -- the cancelled future is pending here: it is found and set
      have hpending := Bool.eq_false_iff.mpr hf
      have hfound := undisturbed_finds hr hw hpending
      have hset := undisturbed_sets hfound rfl hpending
      have hover := h.overtake (h.cancelled hd hpending) outcome
      exact ⟨_,hset,hover.same,hover.uncancelled⟩
  | @sets mode id outcome rest hw hd =>
    have hset := h.set id outcome
    exact ⟨_,undisturbed_sets hr hw (h.pending hd),hset.same,hset.uncancelled⟩
  | sweeps hs ho =>
    refine ⟨futures,undisturbed_sweep hr ?_,h.same,h.uncancelled⟩
    have hsweep : (withFutures s futures).sweep=.idle := hs
    have hover : (withFutures s futures).worker.over=true := ho
    simp only [Execution.step,hsweep,hover]
    rfl
  | ends hs =>
    refine ⟨futures,undisturbed_sweepOn hr ?_,h.same,h.uncancelled⟩
    have hsweep : (withFutures s futures).sweep=.testing [] := hs
    simp only [Execution.sweepOn,hsweep]
    rfl
  | meets hs hd =>
    exact ⟨futures,undisturbed_meets hr hs (h.pending hd),h.same,h.uncancelled⟩
  | @leaves id rest hs hd =>
    by_cases hf : (futures id).done=true
    · refine ⟨futures,undisturbed_sweepOn hr ?_,h.same,h.uncancelled⟩
      have hsweep : (withFutures s futures).sweep=.testing (id::rest) := hs
      have htrue : ((withFutures s futures).futures id).done=true := hf
      simp only [Execution.sweepOn,hsweep,htrue]
      rfl
    · have hpending := Bool.eq_false_iff.mpr hf
      have hmet := undisturbed_meets hr hs hpending
      have hset := undisturbed_abandons hmet rfl hpending
      have hover := h.overtake (h.cancelled hd hpending) .abandoned
      exact ⟨_,hset,hover.same,hover.uncancelled⟩
  | @abandons id rest hs hd =>
    have hset := h.set id .abandoned
    exact ⟨_,undisturbed_abandons hr hs (h.pending hd),hset.same,hset.uncancelled⟩

/-- How many steps a sweep has left at most. -/
def left : Sweep → ℕ
  | .testing rest => 2*rest.length+1
  | .setting rest => 2*rest.length
  | _ => 0

/-- A sweep under way goes on, and comes closer to its end. -/
theorem Orderly.goes (h : Orderly setup s) (hi : s.sweep≠.idle) (hr : s.sweep≠.returned) :
    ∃ t, s.sweepOn=some t ∧ left t.sweep<left s.sweep := by
  have hsw := h.swept
  rw [Swept] at hsw
  rw [Execution.sweepOn]
  split at hsw
  · next hs => exact absurd hs hi
  · next rest hs =>
    rw [hs]
    cases rest with
    | nil => exact ⟨_,rfl,Nat.zero_lt_one⟩
    | cons id others =>
      refine ⟨_,rfl,?_⟩
      by_cases hd : (s.futures id).done=true
      · simp only [if_pos hd,left,List.length_cons]
        omega
      · simp only [if_neg hd,left,List.length_cons]
        omega
  · next rest hs =>
    rw [hs]
    cases rest with
    | nil => exact absurd rfl hsw.1
    | cons id others =>
      have hd := h.held id (isSetting_sweep hs)
      refine ⟨_,rfl,?_⟩
      rw [if_neg (Bool.eq_false_iff.mp hd)]
      simp only [left,List.length_cons]
      omega
  · next hs => exact absurd hs hr
  · exact hsw.elim

/-- The cancellations of a run concern nobody else. -/
structure Isolated (setup : Setup ρ) (s : Execution ρ) : Prop where
  /-- Without cancellations the same place is reached, and the futures nobody
  cancelled are the same there. -/
  same : ∃ t, ((executionMachine setup).guarded (fun s action => quiet s action=true)).Reaches t ∧
    t.worker=s.worker ∧ t.sweep=s.sweep ∧
      ∀ id, s.futures id≠.cancelled → t.futures id=s.futures id
  /-- Each request is counted at most once. -/
  once : (s.completed++s.failed).Nodup
  /-- No exception leaves the worker. -/
  served : s.worker≠.escaped
  /-- No exception leaves the shutdown. -/
  swept : s.sweep≠.escaped
  /-- A shutdown that has begun comes to its end. -/
  goes : s.sweep≠.idle → s.sweep≠.returned → ∃ t, s.sweepOn=some t ∧ left t.sweep<left s.sweep
  /-- A shutdown that has returned has settled what it took. -/
  settled : s.sweep=.returned → ∀ id∈s.taken, (s.futures id).done=true

/-- When nobody cancels a future between the question whether it is done and
the setting of it, cancellations are isolated. -/
theorem apart_isolated
    (h : ((executionMachine setup).guarded (fun s action => apart s action=true)).Reaches s) :
    Isolated setup s := by
  have ho := reaches_orderly h
  refine ⟨?_,?_,ho.contained,fun he => ?_,ho.goes,fun hd => ?_⟩
  · obtain ⟨t,ht,futures,rfl,ha⟩ := h.simulates
      (n := undisturbed setup)
      (R := fun s t => ∃ futures, t=withFutures s futures ∧ Agrees s futures)
      (fun s hs => by
        refine ⟨begin setup,.start rfl,fun _ => .pending,?_,?_⟩
        · rw [hs]
          rfl
        · rw [hs]
          exact ⟨fun _ => Or.inl rfl,fun _ => nofun⟩)
      (fun u action v t hu hs ht hR => by
        obtain ⟨futures,rfl,ha⟩ := hR
        obtain ⟨later,hl,hag⟩ := ha.follows ht (step_effect (reaches_orderly hu) hs.1 hs.2)
        exact ⟨_,hl,later,rfl,hag⟩)
    exact ⟨_,ht,rfl,rfl,fun id hn => ((ha.same id).resolve_right hn).symm⟩
  · have hn : (s.completed++s.failed++ahead setup s.worker).Nodup :=
      ho.counted.total ▸ liveIds_nodup setup
    exact (List.nodup_append'.mp hn).1
  · have hsw := ho.swept
    rw [Swept,he] at hsw
    exact hsw
  · have hsw := ho.swept
    rw [Swept,hd] at hsw
    exact hsw

/-- Two requests of a batch, a third one that never reached a worker, and a
runner that answers both. -/
def pairSetup : Setup String where
  registry := ["a","b","c"]
  batch := ⟨[namedRequest "a",namedRequest "b"],.maxSize⟩
  clock := {}
  results := .ok ["x","y"]
  invalid := "CANCELLED: <Future state=cancelled>"
  registry_nodup := by decide
  requests_nodup := by decide

/-- The first caller cancels during the runner's call. -/
def harmlessCancel : List Action :=
  [.work,.cancel "a",.work,.work,.work,.work,.work,.work,.sweep,.sweepOn,.sweepOn,.sweepOn]

theorem harmlessCancel_isolated : ∃ s,
    ((executionMachine pairSetup).guarded (fun s action => apart s action=true)).Reaches s ∧
    s.sweep=.returned ∧ s.futures "a"=.cancelled ∧ s.futures "b"=.settled (.completed "y") ∧
    s.futures "c"=.settled .abandoned ∧ Isolated pairSetup s := by
  obtain ⟨s,hr,hs,ha,hb,hc⟩ := Machine.Reaches.replayed (m := executionMachine pairSetup)
    (P := fun s => s.sweep=.returned ∧ s.futures "a"=.cancelled ∧
      s.futures "b"=.settled (.completed "y") ∧ s.futures "c"=.settled .abandoned)
    apart (fun _ _ _ h => h) harmlessCancel (.start rfl) (by decide +kernel)
  exact ⟨s,hr,hs,ha,hb,hc,apart_isolated hr⟩

/-- The first caller cancels when its future has been found pending. -/
def harmfulCancel : List Action :=
  [.work,.work,.work,.work,.cancel "a",.work,.work]

/-- The cancelled request is counted as completed and as failed. -/
theorem harmfulCancel_spreads : ¬∀ (setup : Setup String) (s : Execution String),
    (executionMachine setup).Reaches s → Isolated setup s := by
  intro h
  obtain ⟨s,hr,hs⟩ := Machine.Reaches.replayed (m := executionMachine pairSetup)
    (P := fun s => ¬(s.completed++s.failed).Nodup) (fun _ _ => true) (fun _ _ _ h => h)
    harmfulCancel (.start rfl) (by decide +kernel)
  exact hs (h pairSetup s hr.of_guarded).once

end CudaForge.CancelledFutures
