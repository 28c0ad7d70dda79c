import MyEngine.Service.ShutdownOrder
import MyEngine.Support.Stages

/-!
# Service — ServiceTasks

`initServicesInternal` and `shutdownServices` of `service_provider_impl.cpp`, with the tasks of the
services: what is called when, however the tasks end.

* `initServicesInternal`: the services without dependencies side by side, the others one by one.
* `Respects`: a service is called when the tasks of those it depends on are over.
* `initServices_respects`: so it is in every run, which ends.
* `shutdownServices`: the services one by one, the rest side by side, then what is disposed of.
* `shutdown_respects_iff`: the services for which the shutdown goes the other way.
* `disposed_of`: the runs in which something is disposed of.
-/

namespace MyEngine.Service.Tasks

open MergeSort Relation Runs Stages Registered

variable {ι τ : Type} [DecidableEq ι] [DecidableEq τ]

/-! ### Initialization -/

def initStages (independentServices orderedDependentServices : List (ServiceEntry ι τ)) :
    List (Stage ι) :=
  .all (independentServices.map (·.service)) ::
    orderedDependentServices.map fun entry => .one entry.service

/-- `getTaskCallback` is `preInitService` or `initService`. -/
def initServicesInternal (S : Services ι τ) (sort : ListSort ι τ) (getTaskCallback : ι → Answer)
    (services : List ι) : Except Failure (State ι) := do
  let (independentServices, orderedDependentServices) ← takeOutServiceList S sort services
  .ok (proceed getTaskCallback (initStages independentServices orderedDependentServices) [])

/-- The tasks of the services that a service depends on are over when it is called; those of
services that depend on others have not failed. -/
def Respects (S : Services ι τ) (services : List ι) (log : List (Event ι)) : Prop :=
  ∀ before s after, log = before ++ .called s :: after → ∀ o, S.Reaches services s o →
    (∃ ok, .finished o ok ∈ before) ∧ (S.getServiceDependencies o ≠ [] → .finished o true ∈ before)

section

variable {S : Services ι τ} {services : List ι} {E sorted : List (ServiceEntry ι τ)}

omit [DecidableEq ι] [DecidableEq τ] in
theorem dependencies_eq_empty (h : Complete S services E) {e : ServiceEntry ι τ} (he : e ∈ E) :
    e.dependencies = ∅ ↔ S.getServiceDependencies e.service = [] := by
  have hneeds := h.inv.needs e he (h.collected e he)
  constructor
  · intro hempty
    refine List.eq_nil_iff_forall_not_mem.2 fun t ht => ?_
    have hmem := (hneeds t).2 (.inl ht)
    rw [hempty] at hmem
    exact Finset.notMem_empty t hmem
  · intro hnil
    refine Finset.eq_empty_of_forall_notMem fun t ht => ?_
    rcases (hneeds t).1 ht with ht | ⟨o, ho, -⟩
    · rw [hnil] at ht
      cases ht
    · exact declares_of_reaches ho hnil

omit [DecidableEq ι] in
theorem calls_map_one {κ : Type} (f : κ → ι) (l : List κ) :
    (l.map fun x => Stage.one (f x)).flatMap Stage.calls = l.map f := by
  rw [List.flatMap_map, List.map_eq_flatMap]
  rfl

omit [DecidableEq ι] [DecidableEq τ] in
theorem mem_initStages {independent dependent : List (ServiceEntry ι τ)} {s : ι} :
    .one s ∈ initStages independent dependent ↔ ∃ e ∈ dependent, e.service = s := by
  simp [initStages]

omit [DecidableEq ι] [DecidableEq τ] in
theorem calls_initStages (independent dependent : List (ServiceEntry ι τ)) :
    (initStages independent dependent).flatMap Stage.calls =
      (independent ++ dependent).map (·.service) := by
  rw [initStages, List.flatMap_cons, List.map_append, calls_map_one]
  rfl

omit [DecidableEq ι] [DecidableEq τ] in
/-- What `Behind` says of services that are in order. -/
theorem respects_of_behind {independent dependent : List (ServiceEntry ι τ)}
    (hindependent : ∀ e ∈ independent, S.getServiceDependencies e.service = [])
    (horder : S.InOrder services ((independent ++ dependent).map (·.service)))
    {log : List (Event ι)} (h : Behind (initStages independent dependent) log) :
    Respects S services log := by
  intro before s after hlog o hreaches
  obtain ⟨past, stage, rest, hplan, hs, hover⟩ := h before s after hlog
  cases past with
  | nil =>
      -- what is called with the first stage depends on nothing
      obtain ⟨rfl, -⟩ := List.cons.inj hplan
      obtain ⟨e, he, rfl⟩ := List.mem_map.1 hs
      exact absurd (hindependent e he) (declares_of_reaches hreaches)
  | cons first past =>
      obtain ⟨rfl, hcons⟩ := List.cons.inj hplan
      have hrest : dependent.map (fun e => Stage.one e.service) = past ++ stage :: rest := hcons
      have hone : ∀ stage' ∈ past ++ stage :: rest, ∃ service, stage' = .one service := by
        intro stage' hstage'
        rw [← hrest] at hstage'
        obtain ⟨e, -, rfl⟩ := List.mem_map.1 hstage'
        exact ⟨e.service, rfl⟩
      obtain ⟨service, rfl⟩ := hone stage (List.mem_append_right _ List.mem_cons_self)
      obtain rfl := List.mem_singleton.1 hs
      have hcalls := calls_initStages independent dependent
      rw [hplan, List.flatMap_append, List.flatMap_cons] at hcalls
      have ho := horder _ s _ hcalls.symm o hreaches
      rw [← List.flatMap_cons] at ho
      obtain ⟨stage', hstage', ho⟩ := List.mem_flatMap.1 ho
      refine ⟨(hover stage' hstage').exists_over ho, fun hdeclares => ?_⟩
      rcases List.mem_cons.1 hstage' with rfl | hpast
      · obtain ⟨e, he, rfl⟩ := List.mem_map.1 ho
        exact absurd (hindependent e he) hdeclares
      · obtain ⟨service, rfl⟩ := hone stage' (List.mem_append_left _ hpast)
        obtain rfl := List.mem_singleton.1 ho
        exact hover _ hstage'

end

/-- **Initialization.**  However the tasks end: a service is called when the tasks of those that it
depends on are over, directly or not, and none of a service with dependencies has failed.  It ends;
with an error just when the task of a service with dependencies has failed, and otherwise when every
service was called once and is over. -/
theorem initServices_respects (S : Services ι τ) {sort : ListSort ι τ}
    (hsort : ∀ less l, MergeSorted less l (sort less l)) {services : List ι}
    (hnodup : services.Nodup) (hacyclic : S.Acyclic services) (getTaskCallback : ι → Answer) :
    ∃ started, initServicesInternal S sort getTaskCallback services = .ok started ∧
      ∀ actions s, exec (step getTaskCallback) started actions = some s →
        Respects S services s.log ∧
        actions.length ≤ 2 * services.length + 1 ∧
        (s.ended = true ↔ ∀ a, step getTaskCallback s a = none) ∧
        (s.error = true ↔ ∃ service ∈ services,
          S.getServiceDependencies service ≠ [] ∧ .finished service false ∈ s.log) ∧
        (s.ended = true → s.error = false → (calledOf s.log).Perm services ∧
          ∀ service ∈ services, ∃ ok, .finished service ok ∈ s.log) := by
  rcases walk_all (S := S) hnodup with ⟨E, hE, hcomplete⟩ | ⟨-, c, hcycle⟩
  · obtain ⟨sorted, hs, hout⟩ := takeOutServiceList_of_walk hsort hcomplete hE
    obtain ⟨hperm, horder⟩ := hcomplete.inOrder hs
    have hdependencies : ∀ e ∈ sorted, (e.dependencies = ∅ ↔
        S.getServiceDependencies e.service = []) := fun e he =>
      dependencies_eq_empty hcomplete (hs.perm.mem_iff.1 he)
    have hindependent : ∀ e ∈ sorted.filter fun e => e.dependencies = ∅,
        S.getServiceDependencies e.service = [] := by
      intro e he
      obtain ⟨he, hempty⟩ := List.mem_filter.1 he
      exact (hdependencies e he).1 (of_decide_eq_true hempty)
    have hcalls := calls_initStages (sorted.filter fun e => e.dependencies = ∅)
      (sorted.filter fun e => ¬ e.dependencies = ∅)
    refine ⟨_, by rw [initServicesInternal, hout]; rfl, fun actions s hrun => ?_⟩
    obtain ⟨past, hat⟩ := exists_at (exec_steps (allowed_free actions _) hrun)
    have hcallsNodup := hcalls ▸ hperm.nodup_iff.2 hnodup
    have hmem : ∀ {service}, service ∈ services ↔ ∃ e ∈ sorted, e.service = service :=
      fun {service} => by rw [← hcomplete.perm.mem_iff, List.mem_map]; simp [hs.perm.mem_iff]
    refine ⟨respects_of_behind hindependent horder hat.behind, ?_, ended_iff hat, ?_, ?_⟩
    · refine (exec_length_le hrun).trans ((left_proceed_le ..).trans ?_)
      rw [hcalls, hperm.length_eq, initStages, List.length_cons, List.length_map]
      have hlength := hperm.length_eq
      rw [List.length_map, List.length_append] at hlength
      omega
    · rw [hat.error_iff hcallsNodup]
      constructor
      · rintro ⟨service, hone, hfailed⟩
        obtain ⟨e, he, rfl⟩ := mem_initStages.1 hone
        obtain ⟨he, hne⟩ := List.mem_filter.1 he
        refine ⟨e.service, hmem.2 ⟨e, he, rfl⟩, fun hnil => ?_, hfailed⟩
        exact of_decide_eq_true hne ((hdependencies e he).2 hnil)
      · rintro ⟨service, hservice, hdeclares, hfailed⟩
        obtain ⟨e, he, rfl⟩ := hmem.1 hservice
        have hne : ¬ e.dependencies = ∅ := fun hempty => hdeclares ((hdependencies e he).1 hempty)
        exact ⟨e.service, mem_initStages.2 ⟨e, List.mem_filter.2 ⟨he, decide_eq_true hne⟩, rfl⟩,
          hfailed⟩
    · intro hended herror
      obtain ⟨hall, hover⟩ := hat.called_all hended herror
      refine ⟨by rw [hall, hcalls]; exact hperm, fun service hservice => ?_⟩
      have hcalled := hperm.mem_iff.2 hservice
      rw [← hcalls] at hcalled
      obtain ⟨stage, hstage, hcall⟩ := List.mem_flatMap.1 hcalled
      exact (hover stage hstage).exists_over hcall
  · exact absurd hcycle (hacyclic c)

/-- A chain of three services, the second of which cannot be initialized. -/
theorem initServices_respects_chain : ∃ started,
    initServicesInternal (chain 2) mergeSort (fun s => if s = 1 then .ready false else .pending)
      [0, 1, 2] = .ok started ∧
    ∀ actions s, exec (step fun s => if s = 1 then .ready false else .pending) started actions =
      some s → Respects (chain 2) [0, 1, 2] s.log := by
  obtain ⟨started, hstarted, hruns⟩ := initServices_respects (chain 2)
    (fun _ => mergeSorted_mergeSort) (by decide : ([0, 1, 2] : List (Fin 3)).Nodup)
    (fun _ hr => Nat.lt_irrefl _ (chain_lt hr)) fun s => if s = 1 then .ready false else .pending
  exact ⟨started, hstarted, fun actions s hrun => (hruns actions s hrun).1⟩

/-! ### Shutdown -/

inductive Call (ι : Type) where
  | shutdownService (service : ι)
  | disposeAsync (service : ι)
  | dispose (service : ι)
  deriving DecidableEq, Repr

def Call.service : Call ι → ι
  | shutdownService service | disposeAsync service | dispose service => service

/-- The services that have `IAsyncDisposable` and `IDisposable`. -/
structure Disposables (ι : Type) where
  asyncDisposable : ι → Bool
  disposable : ι → Bool

/-- The tasks of `shutdownService` and of `disposeAsync`. -/
structure Answers (ι : Type) where
  shutdownService : ι → Answer
  disposeAsync : ι → Answer

def Answers.answer (answers : Answers ι) : Call ι → Answer
  | .shutdownService service => answers.shutdownService service
  | .disposeAsync service    => answers.disposeAsync service
  | .dispose _               => .none

def Disposables.calls (d : Disposables ι) (service : ι) : List (Call ι) :=
  (if d.asyncDisposable service then [.disposeAsync service] else []) ++
    if d.disposable service then [.dispose service] else []

def shutdownStages (d : Disposables ι) (services independentServices orderedDependentServices :
    List ι) : List (Stage (Call ι)) :=
  orderedDependentServices.map (fun service => .one (.shutdownService service)) ++
    [.all (independentServices.map .shutdownService), .all (services.flatMap d.calls)]

def shutdownServices (S : Registered ι τ) (sort : ListSort ι τ) (d : Disposables ι)
    (answers : Answers ι) (services : List ι) : Except Failure (State (Call ι)) := do
  let (independentServices, orderedDependentServices) ←
    makeShutdownOrderedServiceList S sort (services.filter S.shutdown)
  .ok (proceed answers.answer
    (shutdownStages d services independentServices orderedDependentServices) [])

/-- A service is shut down when the tasks of those that depend on it are over, and have not
failed. -/
def ShutdownRespects (S : Registered ι τ) (services : List ι) (log : List (Event (Call ι))) :
    Prop :=
  ∀ before o after, log = before ++ .called (.shutdownService o) :: after →
    ∀ s ∈ services, S.shutdown s = true → S.Reaches services s o →
      .finished (.shutdownService s) true ∈ before

section

variable {S : Registered ι τ} {services independent dependent : List ι} {d : Disposables ι}
  {log : List (Event (Call ι))}

omit [DecidableEq ι] [DecidableEq τ] in
theorem calls_shutdownStages :
    (shutdownStages d services independent dependent).flatMap Stage.calls =
      (dependent ++ independent).map Call.shutdownService ++ services.flatMap d.calls := by
  rw [shutdownStages, List.flatMap_append, calls_map_one, List.map_append, List.append_assoc]
  simp [Stage.calls]

omit [DecidableEq ι] in
theorem mem_calls {service : ι} {call : Call ι} (h : call ∈ d.calls service) :
    call = .disposeAsync service ∨ call = .dispose service := by
  rw [Disposables.calls, List.mem_append] at h
  rcases h with h | h <;> split at h
  · exact .inl (List.mem_singleton.1 h)
  · cases h
  · exact .inr (List.mem_singleton.1 h)
  · cases h

omit [DecidableEq ι] in
theorem not_disposal (service : ι) : .shutdownService service ∉ services.flatMap d.calls := by
  intro h
  obtain ⟨s, -, hcall⟩ := List.mem_flatMap.1 h
  rcases mem_calls hcall with h | h <;> cases h

omit [DecidableEq ι] in
theorem disposals_nodup (hnodup : services.Nodup) : (services.flatMap d.calls).Nodup := by
  refine List.nodup_flatMap.2 ⟨fun s _ => ?_, hnodup.imp fun {a b} hne call ha hb => hne ?_⟩
  · rw [Disposables.calls]
    split <;> split <;> simp
  · have hservice : ∀ {s}, call ∈ d.calls s → call.service = s := by
      intro s hs
      rcases mem_calls hs with rfl | rfl <;> rfl
    exact (hservice ha).symm.trans (hservice hb)

omit [DecidableEq ι] [DecidableEq τ] in
/-- What `Behind` says of services that are in order. -/
theorem shutdownRespects_of_behind
    (hindependent : ∀ s ∈ independent, S.getServiceDependencies s = [])
    (hperm : (dependent ++ independent).Perm (services.filter S.shutdown))
    (horder : (dependent ++ independent).Pairwise fun a b => ¬ S.Reaches services b a)
    (hacyclic : S.Acyclic services)
    (h : Behind (shutdownStages d services independent dependent) log) :
    ShutdownRespects S services log := by
  intro before o after hlog s hs hshutdown hreaches
  obtain ⟨past, stage, rest, hplan, ho, hover⟩ := h before _ after hlog
  have hdependent : s ∈ dependent := by
    have hmem := hperm.mem_iff.2 (List.mem_filter.2 ⟨hs, hshutdown⟩)
    refine (List.mem_append.1 hmem).resolve_right fun hmem => ?_
    exact declares_of_reaches hreaches (hindependent s hmem)
  have hall : .one (.shutdownService s) ∈ past → .finished (.shutdownService s) true ∈ before :=
    fun hmem => hover _ hmem
  have hmap : .one (.shutdownService s) ∈
      dependent.map fun service => Stage.one (Call.shutdownService service) :=
    List.mem_map_of_mem hdependent
  rw [shutdownStages] at hplan
  rcases List.append_eq_append_iff.1 hplan with ⟨between, hpast, -⟩ | ⟨between, hone, hrest⟩
  · rw [hpast] at hall
    exact hall (List.mem_append_left _ hmap)
  · cases between with
    | nil =>
        rw [List.append_nil] at hone
        rw [← hone] at hall
        exact hall hmap
    | cons stage' between =>
        -- the service is one of those that are shut down one by one
        obtain ⟨rfl, -⟩ := List.cons.inj hrest
        obtain ⟨p, q, hsplit, hp, hq⟩ := List.map_eq_append_iff.1 hone
        obtain ⟨o', q', rfl, rfl, -⟩ := List.map_eq_cons_iff.1 hq
        obtain rfl : o = o' := Call.shutdownService.inj (List.mem_singleton.1 ho)
        rw [hsplit] at hdependent horder
        have hnot := (List.pairwise_cons.1 (List.pairwise_append.1
          (List.pairwise_append.1 horder).1).2.1).1
        rcases List.mem_append.1 hdependent with hmem | hmem
        · rw [← hp] at hall
          exact hall (List.mem_map_of_mem hmem)
        · rcases List.mem_cons.1 hmem with rfl | hmem
          · exact absurd hreaches (hacyclic s)
          · exact absurd hreaches (hnot s hmem)

/-- The two lists, for the sorted entries. -/
theorem makeShutdownOrderedServiceList_eq {sort : ListSort ι τ}
    (hsort : ∀ less l, MergeSorted less l (sort less l)) (hnodup : services.Nodup)
    (hacyclic : S.Acyclic services) :
    ∃ E sorted independent dependent, Complete S.toServices (S.ordered services) E ∧
      MergeSorted (fun left right => right.isDependsOn S.toServices left) E sorted ∧
      makeShutdownOrderedServiceList S sort (services.filter S.shutdown) =
        .ok (independent, dependent) ∧
      S.order services sorted = dependent ++ independent ∧
      (∀ s ∈ independent, S.getServiceDependencies s = []) ∧
      ∀ s ∈ dependent, S.getServiceDependencies s ≠ [] := by
  have hnodup' : (S.ordered services).Nodup := (hnodup.filter _).filter _
  rcases walk_all (S := S.toServices) hnodup' with ⟨E, hE, hcomplete⟩ | ⟨-, c, hcycle⟩
  · obtain ⟨sorted, hs, hout⟩ := takeOutServiceList_of_walk hsort hcomplete hE
    refine ⟨E, sorted, _, _, hcomplete, hs, ?_, rfl, fun s hmem =>
      not_declares hcomplete hs.perm hmem, fun s hmem hnil => ?_⟩
    · have hordered : (services.filter S.shutdown).filter S.initialization = S.ordered services :=
        rfl
      rw [makeShutdownOrderedServiceList]
      dsimp only
      rw [hordered]
      by_cases hempty : S.ordered services = []
      · -- no entries: the sorted list is empty
        have hmap := hcomplete.perm
        rw [hempty] at hmap
        have hsorted : sorted = [] := by
          have hperm := hs.perm
          rw [List.map_eq_nil_iff.1 hmap.eq_nil] at hperm
          exact hperm.eq_nil
        rw [if_pos (List.isEmpty_iff.2 hempty), hsorted]
        rfl
      · rw [if_neg fun h => hempty (List.isEmpty_iff.1 h), hout]
        rfl
    · obtain ⟨e, he, rfl⟩ := List.mem_map.1 (List.mem_reverse.1 hmem)
      obtain ⟨he, hne⟩ := List.mem_filter.1 he
      exact of_decide_eq_true hne ((declares_iff hcomplete (hs.perm.mem_iff.1 he)).2 hnil)
  · exact absurd (Services.Reaches.mono ordered_subset hcycle) (hacyclic c)

end

theorem pairwise_of_splits {α : Type} {R : α → α → Prop} {l : List α}
    (h : ∀ before a after, l = before ++ a :: after → ∀ b ∈ after, R a b) : l.Pairwise R := by
  induction l with
  | nil => exact List.Pairwise.nil
  | cons a l ih =>
      refine List.pairwise_cons.2 ⟨h [] a l rfl, ih fun before b after hl => ?_⟩
      exact h (a :: before) b after (by rw [hl]; rfl)

section

variable {S : Registered ι τ} {services order : List ι} {d : Disposables ι}

omit [DecidableEq ι] [DecidableEq τ] in
/-- The order in which services are called that give no tasks. -/
theorem pairwise_of_respects {answers : Answers ι} (hnone : ∀ call, answers.answer call = .none)
    (hperm : order.Perm (services.filter S.shutdown)) (hnodup : services.Nodup)
    {disposals : List (Call ι)}
    (h : ShutdownRespects S services
      ((order.map Call.shutdownService ++ disposals).flatMap (made answers.answer))) :
    order.Pairwise fun a b => ¬ S.Reaches services b a := by
  refine pairwise_of_splits fun before a after hsplit b hb hreaches => ?_
  have hmade : ∀ call, made answers.answer call = [.called call, .finished call true] := by
    intro call
    rw [made, hnone]
  have hmem := hperm.mem_iff.1 (hsplit ▸ List.mem_append_right _ (List.mem_cons_of_mem a hb))
  obtain ⟨hservice, hshutdown⟩ := List.mem_filter.1 hmem
  have hover := h ((before.map Call.shutdownService).flatMap (made answers.answer)) a
    (.finished (.shutdownService a) true ::
      (after.map Call.shutdownService ++ disposals).flatMap (made answers.answer))
    (by simp [hsplit, hmade]) b hservice hshutdown hreaches
  have hbefore : b ∈ before := by
    simpa [hmade] using hover
  have hordered := hperm.nodup_iff.2 (hnodup.filter _)
  rw [hsplit] at hordered
  exact (List.nodup_append.1 hordered).2.2 b hbefore b (List.mem_cons_of_mem a hb) rfl

end

/-- **Shutdown.**  For every order of registration, and however the tasks end, a service is shut
down when those that depend on it are over and have not failed, exactly when the services are
linked. -/
theorem shutdown_respects_iff (S : Registered ι τ) {sort : ListSort ι τ}
    (hsort : ∀ less l, MergeSorted less l (sort less l)) {services : List ι}
    (hnodup : services.Nodup) (hacyclic : S.Acyclic services) (d : Disposables ι) :
    (∀ registered, registered.Perm services → ∀ answers : Answers ι, ∃ started,
      shutdownServices S sort d answers registered = .ok started ∧
      ∀ actions s, exec (step answers.answer) started actions = some s →
        ShutdownRespects S services s.log) ↔ S.Linked services := by
  have hrespects : ∀ {registered : List ι}, registered.Perm services → ∀ {log},
      ShutdownRespects S registered log ↔ ShutdownRespects S services log := by
    intro registered hperm log
    simp only [ShutdownRespects, hperm.mem_iff, Services.reaches_perm hperm]
  constructor
  · intro hall s o hs hss ho hr hdeclares
    -- the registration that starts with `s`
    have hperm : (s :: services.erase s).Perm services := (List.perm_cons_erase hs).symm
    have hi := initialization_of_declares (declares_of_reaches hr)
    have hr' := (Services.reaches_perm hperm).2 hr
    have hnodup' := hperm.nodup_iff.2 hnodup
    have hacyclic' := acyclic_perm hperm.symm hacyclic
    obtain ⟨E, sorted, independent, dependent, hcomplete, hsorted, hout, horder, -, -⟩ :=
      makeShutdownOrderedServiceList_eq hsort hnodup' hacyclic'
    obtain ⟨started, hstarted, hruns⟩ := hall _ hperm ⟨fun _ => .none, fun _ => .none⟩
    rw [shutdownServices, hout] at hstarted
    obtain rfl := Except.ok.inj hstarted
    have hnone : ∀ call : Call ι, Answers.answer ⟨fun _ => .none, fun _ => .none⟩ call = .none := by
      intro call
      cases call <;> rfl
    have hlog := hruns [] _ rfl
    rw [proceed_of_none hnone, calls_shutdownStages, ← horder] at hlog
    have hp := pairwise_of_respects hnone (order_perm hcomplete hsorted.perm) hnodup'
      ((hrespects hperm).2 hlog)
    have hfiltered := linked_of_pairwise (ordered_cons hss hi) hcomplete hsorted hp hacyclic' hr'
      ho hdeclares
    exact (Services.reaches_perm ((hperm.filter _).filter _)).1 hfiltered
  · intro hlinked registered hperm answers
    have hacyclic' := acyclic_perm hperm.symm hacyclic
    obtain ⟨E, sorted, independent, dependent, hcomplete, hsorted, hout, horder, hindependent, -⟩ :=
      makeShutdownOrderedServiceList_eq hsort (hperm.nodup_iff.2 hnodup) hacyclic'
    refine ⟨_, by rw [shutdownServices, hout]; rfl, fun actions s hrun => ?_⟩
    obtain ⟨past, hat⟩ := exists_at (exec_steps (allowed_free actions _) hrun)
    refine (hrespects hperm).1 (shutdownRespects_of_behind hindependent ?_ ?_ hacyclic' hat.behind)
    · rw [← horder]
      exact order_perm hcomplete hsorted.perm
    · rw [← horder]
      exact order_pairwise (linked_perm hperm.symm hlinked) hcomplete hsorted

theorem shutdown_respects_chain (answers : Answers (Fin 3)) : ∃ started,
    shutdownServices (shutdownChain 2 fun _ => true) mergeSort ⟨fun _ => true, fun _ => true⟩
      answers [1, 0, 2] = .ok started ∧
    ∀ actions s, exec (step answers.answer) started actions = some s →
      ShutdownRespects (shutdownChain 2 fun _ => true) [0, 1, 2] s.log :=
  (shutdown_respects_iff (shutdownChain 2 fun _ => true) (fun _ => mergeSorted_mergeSort)
    (by decide : ([0, 1, 2] : List (Fin 3)).Nodup) shutdownChain_acyclic
    ⟨fun _ => true, fun _ => true⟩).2 (fun _ _ _ _ _ hr _ => hr) [1, 0, 2] (by decide) answers

/-! ### What is disposed of -/

/-- The calls to `disposeAsync` and to `dispose`. -/
def disposals (log : List (Event (Call ι))) : List (Call ι) :=
  (calledOf log).filter fun
    | .shutdownService _ => false
    | _                  => true

/-- The stages before what is disposed of. -/
def serviceStages (independent dependent : List ι) : List (Stage (Call ι)) :=
  dependent.map (fun service => .one (.shutdownService service)) ++
    [.all (independent.map .shutdownService)]

section

variable {services independent dependent : List ι} {d : Disposables ι}
  {past rest : List (Stage (Call ι))} {stage : Stage (Call ι)} {s : State (Call ι)}

omit [DecidableEq ι]

theorem shutdownStages_eq : shutdownStages d services independent dependent =
    serviceStages independent dependent ++ [.all (services.flatMap d.calls)] := by
  rw [shutdownStages, serviceStages, List.append_assoc]
  rfl

theorem calls_serviceStages : (serviceStages independent dependent).flatMap Stage.calls =
    (dependent ++ independent).map Call.shutdownService := by
  rw [serviceStages, List.flatMap_append, calls_map_one, List.map_append]
  simp [Stage.calls]

theorem disposals_of_subset (hsub : past ⊆ serviceStages independent dependent) :
    (past.flatMap Stage.calls).filter (fun
      | .shutdownService _ => false
      | _                  => true) = [] := by
  rw [List.filter_eq_nil_iff]
  intro call hcall
  obtain ⟨stage, hstage, hcall⟩ := List.mem_flatMap.1 hcall
  have hmem := List.mem_flatMap.2 ⟨stage, hsub hstage, hcall⟩
  rw [calls_serviceStages] at hmem
  obtain ⟨service, -, rfl⟩ := List.mem_map.1 hmem
  exact Bool.false_ne_true

theorem disposals_flatMap (services : List ι) : (services.flatMap d.calls).filter (fun
      | .shutdownService _ => false
      | _                  => true) = services.flatMap d.calls := by
  rw [List.filter_eq_self]
  intro call hcall
  cases call with
  | shutdownService service => exact absurd hcall (not_disposal service)
  | disposeAsync service => rfl
  | dispose service => rfl

theorem length_disposals_le (services : List ι) :
    (services.flatMap d.calls).length ≤ 2 * services.length := by
  induction services with
  | nil => exact Nat.le_refl 0
  | cons service services ih =>
      have hcalls : (d.calls service).length ≤ 2 := by
        rw [Disposables.calls, List.length_append]
        split <;> split <;> simp
      rw [List.flatMap_cons, List.length_append, List.length_cons]
      omega

theorem calls_nodup (hnodup : services.Nodup) (horder : (dependent ++ independent).Nodup) :
    ((shutdownStages d services independent dependent).flatMap Stage.calls).Nodup := by
  rw [calls_shutdownStages]
  refine List.nodup_append.2 ⟨?_, disposals_nodup hnodup, ?_⟩
  · exact horder.map fun _ _ heq => Call.shutdownService.inj heq
  · rintro call hcall call' hcall' rfl
    obtain ⟨service, -, rfl⟩ := List.mem_map.1 hcall
    exact not_disposal service hcall'

theorem mem_shutdownStages {service : ι} :
    .one (.shutdownService service) ∈ shutdownStages d services independent dependent ↔
      service ∈ dependent := by
  simp [shutdownStages]

/-- Something is disposed of when all services are shut down. -/
theorem over_of_disposal {log before after : List (Event (Call ι))} {call : Call ι}
    (h : Behind (shutdownStages d services independent dependent) log)
    (hlog : log = before ++ .called call :: after)
    (hdisposal : ∀ service, call ≠ .shutdownService service) {service : ι}
    (hservice : service ∈ dependent ++ independent) :
    ∃ ok, .finished (.shutdownService service) ok ∈ before := by
  obtain ⟨past, stage, rest, hplan, hcall, hover⟩ := h before call after hlog
  have hpast : ∀ stage' ∈ serviceStages independent dependent, stage' ∈ past := by
    rw [shutdownStages_eq] at hplan
    rcases List.append_eq_append_iff.1 hplan with ⟨between, rfl, -⟩ | ⟨between, heq, hrest⟩
    · exact fun stage' hstage' => List.mem_append_left _ hstage'
    · cases between with
      | nil =>
          rw [heq, List.append_nil]
          exact fun stage' hstage' => hstage'
      | cons stage' between =>
          obtain ⟨rfl, -⟩ := List.cons.inj hrest
          have hmem : call ∈ (serviceStages independent dependent).flatMap Stage.calls := by
            refine List.mem_flatMap.2 ⟨stage, ?_, hcall⟩
            rw [heq]
            exact List.mem_append_right _ List.mem_cons_self
          rw [calls_serviceStages] at hmem
          obtain ⟨service, -, rfl⟩ := List.mem_map.1 hmem
          exact absurd rfl (hdisposal service)
  have hmem : .shutdownService service ∈
      (serviceStages independent dependent).flatMap Stage.calls := by
    rw [calls_serviceStages]
    exact List.mem_map_of_mem hservice
  obtain ⟨stage', hstage', hmem⟩ := List.mem_flatMap.1 hmem
  exact (hover stage' (hpast stage' hstage')).exists_over hmem

/-- Nothing is disposed of when the coroutine has failed. -/
theorem disposals_of_error (h : At (shutdownStages d services independent dependent) past s)
    (herror : s.error = true) : disposals s.log = [] := by
  obtain ⟨p, call, hlast, -⟩ := h.last (.inr herror)
  have hplan := h.split
  rw [shutdownStages_eq] at hplan
  rw [disposals, h.called]
  suffices hsub : past ⊆ serviceStages independent dependent from disposals_of_subset hsub
  rcases List.append_eq_append_iff.1 hplan with ⟨between, hpast, hrest⟩ | ⟨between, heq, -⟩
  · cases between with
    | nil =>
        rw [hpast, List.append_nil]
        exact List.Subset.refl _
    | cons stage between =>
        -- the last stage is not that of a single call
        obtain ⟨rfl, hnil⟩ := List.cons.inj hrest
        rw [(List.append_eq_nil_iff.1 hnil.symm).1, hlast] at hpast
        cases (List.append_inj' hpast rfl).2
  · rw [heq]
    exact List.subset_append_left ..

end

/-- **Disposal.**  However the tasks end: something is disposed of when all services are shut down.
The shutdown ends; with an error just when the task of a service with dependencies has failed.  Then
nothing is disposed of; otherwise everything is, in the order of registration. -/
theorem disposed_of (S : Registered ι τ) {sort : ListSort ι τ}
    (hsort : ∀ less l, MergeSorted less l (sort less l)) {services : List ι}
    (hnodup : services.Nodup) (hacyclic : S.Acyclic services) (d : Disposables ι)
    (answers : Answers ι) :
    ∃ started, shutdownServices S sort d answers services = .ok started ∧
      ∀ actions s, exec (step answers.answer) started actions = some s →
        (∀ before call after, s.log = before ++ .called call :: after →
          (∀ service, call ≠ .shutdownService service) →
            ∀ service ∈ services, S.shutdown service = true →
              ∃ ok, .finished (.shutdownService service) ok ∈ before) ∧
        actions.length ≤ 4 * services.length + 2 ∧
        (s.ended = true ↔ ∀ a, step answers.answer s a = none) ∧
        (s.error = true ↔ ∃ service ∈ services, S.shutdown service = true ∧
          S.getServiceDependencies service ≠ [] ∧
            .finished (.shutdownService service) false ∈ s.log) ∧
        (s.error = true → disposals s.log = []) ∧
        (s.ended = true → s.error = false → disposals s.log = services.flatMap d.calls) := by
  obtain ⟨E, sorted, independent, dependent, hcomplete, hsorted, hout, horder, hindependent,
    hdependent⟩ := makeShutdownOrderedServiceList_eq hsort hnodup hacyclic
  have hperm : (dependent ++ independent).Perm (services.filter S.shutdown) := by
    rw [← horder]
    exact order_perm hcomplete hsorted.perm
  refine ⟨_, by rw [shutdownServices, hout]; rfl, fun actions s hrun => ?_⟩
  obtain ⟨past, hat⟩ := exists_at (exec_steps (allowed_free actions _) hrun)
  have hcallsNodup := calls_nodup (d := d) hnodup (hperm.nodup_iff.2 (hnodup.filter _))
  have hmem : ∀ {service}, service ∈ dependent ++ independent ↔
      service ∈ services ∧ S.shutdown service = true := by
    intro service
    rw [hperm.mem_iff, List.mem_filter]
  refine ⟨fun before call after hlog hdisposal service hservice hshutdown => ?_, ?_, ended_iff hat,
    ?_, disposals_of_error hat, fun hended herror => ?_⟩
  · exact over_of_disposal hat.behind hlog hdisposal (hmem.2 ⟨hservice, hshutdown⟩)
  · refine (exec_length_le hrun).trans ((left_proceed_le ..).trans ?_)
    have hfilter := List.length_filter_le S.shutdown services
    have hlength := hperm.length_eq
    have hdisposals := length_disposals_le (d := d) services
    rw [List.length_append] at hlength
    rw [calls_shutdownStages, shutdownStages]
    simp only [List.length_append, List.length_map, List.length_cons, List.length_nil]
    omega
  · rw [hat.error_iff hcallsNodup]
    constructor
    · rintro ⟨call, hone, hfailed⟩
      have hservice : ∃ service ∈ dependent, call = .shutdownService service := by
        rw [shutdownStages] at hone
        simpa [eq_comm] using hone
      obtain ⟨service, hservice, rfl⟩ := hservice
      obtain ⟨hin, hshutdown⟩ := hmem.1 (List.mem_append_left _ hservice)
      exact ⟨service, hin, hshutdown, hdependent service hservice, hfailed⟩
    · rintro ⟨service, hin, hshutdown, hdeclares, hfailed⟩
      refine ⟨_, mem_shutdownStages.2 ?_, hfailed⟩
      refine (List.mem_append.1 (hmem.2 ⟨hin, hshutdown⟩)).resolve_right fun hservice => ?_
      exact hdeclares (hindependent service hservice)
  · rw [disposals, (hat.called_all hended herror).1, shutdownStages_eq, List.flatMap_append,
      List.filter_append, disposals_of_subset (List.Subset.refl _), List.nil_append]
    rw [List.flatMap_singleton]
    exact disposals_flatMap services

/-- A chain of three services, of which the first one cannot be shut down. -/
theorem disposed_of_chain : ∃ started,
    shutdownServices (shutdownChain 2 fun _ => true) mergeSort ⟨fun _ => true, fun _ => true⟩
      ⟨fun _ => .ready false, fun _ => .none⟩ [0, 1, 2] = .ok started ∧
    disposals started.log = [] := by
  obtain ⟨started, hstarted, hruns⟩ := disposed_of (shutdownChain 2 fun _ => true)
    (fun _ => mergeSorted_mergeSort) (by decide : ([0, 1, 2] : List (Fin 3)).Nodup)
    shutdownChain_acyclic ⟨fun _ => true, fun _ => true⟩
    (⟨fun _ => .ready false, fun _ => .none⟩ : Answers (Fin 3))
  obtain ⟨-, -, -, -, hfailed, -⟩ := hruns [] started rfl
  refine ⟨started, hstarted, hfailed ?_⟩
  cases hstarted
  rfl

end MyEngine.Service.Tasks
