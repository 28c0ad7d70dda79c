import MyEngine.Service.InitOrder

/-!
# Service — ShutdownOrder

`shutdownServices`: the order in which the shutdown of the services is started.

* `Registered`: the services with the interfaces they implement.
* `Linked`: a dependency between two services that shut down goes through such services only.
* `shutdownServices_spec`: a service is shut down before those it depends on, for every order of
  registration, exactly when the services are linked.
-/

namespace MyEngine.Service

open MergeSort Relation

variable {ι τ : Type}

/-- `as<IServiceInitialization>` and `as<IServiceShutdown>`; the dependencies are declared by the
first. -/
structure Registered (ι τ : Type) extends Services ι τ where
  initialization : ι → Bool
  shutdown : ι → Bool
  declares : ∀ s, initialization s = false → getServiceDependencies s = []

section

variable [DecidableEq ι] [DecidableEq τ]

def makeShutdownOrderedServiceList (S : Registered ι τ) (sort : ListSort ι τ)
    (unorderedShutdownSequence : List ι) : Except Failure (List ι × List ι) :=
  let initializationList := unorderedShutdownSequence.filter S.initialization
  let orderedIndependentServices := unorderedShutdownSequence.filter fun s => !S.initialization s
  if initializationList.isEmpty then .ok (orderedIndependentServices, [])
  else do
    let (independentServices, dependentServices) ←
      takeOutServiceList S.toServices sort initializationList
    .ok ((independentServices.map (·.service)).reverse ++ orderedIndependentServices,
      (dependentServices.map (·.service)).reverse)

/-- The services in the order in which `shutdownService` is called. -/
def shutdownServices (S : Registered ι τ) (sort : ListSort ι τ) (services : List ι) :
    Except Failure (List ι) := do
  let (independentServices, orderedDependentServices) ←
    makeShutdownOrderedServiceList S sort (services.filter S.shutdown)
  .ok (orderedDependentServices ++ independentServices)

end

/-! ### The graph -/

/-- The services that are put in order. -/
def Registered.ordered (S : Registered ι τ) (services : List ι) : List ι :=
  (services.filter S.shutdown).filter S.initialization

/-- When a service that shuts down depends on another one that does, and declares something itself,
it does so through services that shut down. -/
def Registered.Linked (S : Registered ι τ) (services : List ι) : Prop :=
  ∀ s o, s ∈ services → S.shutdown s = true → S.shutdown o = true →
    S.Reaches services s o → S.getServiceDependencies o ≠ [] →
    S.Reaches (S.ordered services) s o

theorem Services.Reaches.mono {S : Services ι τ} {l l' : List ι} (hsub : l ⊆ l') {s o : ι}
    (h : S.Reaches l s o) : S.Reaches l' s o := by
  induction h with
  | single hd => exact .single ⟨hsub hd.1, hd.2⟩
  | tail _ hd ih => exact .tail ih ⟨hsub hd.1, hd.2⟩

theorem Services.reaches_perm {S : Services ι τ} {l l' : List ι} (h : l.Perm l') {s o : ι} :
    S.Reaches l s o ↔ S.Reaches l' s o :=
  ⟨.mono h.subset, .mono h.symm.subset⟩

/-- What depends on something declares something. -/
theorem declares_of_reaches {S : Services ι τ} {l : List ι} {s o : ι} (h : S.Reaches l s o) :
    S.getServiceDependencies s ≠ [] := by
  obtain ⟨c, hc, -⟩ := TransGen.head'_iff.1 h
  intro hnil
  have hdep := hc.2.2
  rw [hnil] at hdep
  cases hdep

theorem Registered.initialization_of_declares {S : Registered ι τ} {s : ι}
    (h : S.getServiceDependencies s ≠ []) : S.initialization s = true := by
  by_contra hn
  exact h (S.declares s (Bool.eq_false_iff.2 hn))

namespace Registered

variable {S : Registered ι τ} {services : List ι}

theorem ordered_subset : S.ordered services ⊆ services := fun _ hs =>
  (List.mem_filter.1 (List.mem_filter.1 hs).1).1

theorem mem_ordered {s : ι} : s ∈ S.ordered services ↔
    s ∈ services ∧ S.shutdown s = true ∧ S.initialization s = true := by
  rw [ordered, List.mem_filter, List.mem_filter, and_assoc]

theorem acyclic_perm {l l' : List ι} (h : l.Perm l') (ha : S.Acyclic l) : S.Acyclic l' :=
  fun s hr => ha s ((Services.reaches_perm h).2 hr)

/-- The registration that starts with `s`. -/
theorem ordered_cons {s : ι} {rest : List ι} (hs : S.shutdown s = true)
    (hi : S.initialization s = true) : S.ordered (s :: rest) = s :: S.ordered rest := by
  rw [ordered, List.filter_cons_of_pos hs, List.filter_cons_of_pos hi]
  rfl

theorem linked_perm {l l' : List ι} (h : l.Perm l') (hl : S.Linked l) : S.Linked l' := by
  intro s o hs hss ho hr hd
  have := hl s o (h.mem_iff.2 hs) hss ho ((Services.reaches_perm h).2 hr) hd
  exact (Services.reaches_perm ((h.filter _).filter _)).1 this

variable [DecidableEq ι] [DecidableEq τ]

/-- The order of the shutdown for the sorted entries: what has dependencies in reverse order, then
what has none, then the services without `IServiceInitialization`. -/
def order (S : Registered ι τ) (services : List ι) (sorted : List (ServiceEntry ι τ)) : List ι :=
  ((sorted.filter fun e => ¬ e.dependencies = ∅).map (·.service)).reverse ++
    (((sorted.filter fun e => e.dependencies = ∅).map (·.service)).reverse ++
      (services.filter S.shutdown).filter fun s => !S.initialization s)

theorem shutdownServices_eq {sort : ListSort ι τ}
    (hsort : ∀ less l, MergeSorted less l (sort less l)) (hnodup : services.Nodup)
    (hacyclic : S.Acyclic services) :
    ∃ E sorted, Complete S.toServices (S.ordered services) E ∧
      MergeSorted (fun left right => right.isDependsOn S.toServices left) E sorted ∧
      shutdownServices S sort services = .ok (S.order services sorted) := by
  have hnodup' : (S.ordered services).Nodup := (hnodup.filter _).filter _
  rcases walk_all (S := S.toServices) hnodup' with ⟨E, hE, hcomplete⟩ | ⟨-, c, hcycle⟩
  · obtain ⟨sorted, hs, hout⟩ := takeOutServiceList_of_walk hsort hcomplete hE
    refine ⟨E, sorted, hcomplete, hs, ?_⟩
    have hordered : (services.filter S.shutdown).filter S.initialization = S.ordered services := rfl
    rw [shutdownServices, makeShutdownOrderedServiceList]
    dsimp only
    rw [hordered]
    by_cases hnil : S.ordered services = []
    · -- no entries: the sorted list is empty
      have hEnil : E = [] := by
        have := hcomplete.perm
        rw [hnil] at this
        exact List.map_eq_nil_iff.1 this.eq_nil
      have hsnil : sorted = [] := by
        rw [hEnil] at hs
        exact hs.perm.eq_nil
      rw [if_pos (List.isEmpty_iff.2 hnil), hsnil]
      rfl
    · rw [if_neg fun h => hnil (List.isEmpty_iff.1 h), hout]
      rfl
  · exact absurd (Services.Reaches.mono ordered_subset hcycle) (hacyclic c)

variable {E sorted : List (ServiceEntry ι τ)}

omit [DecidableEq ι] [DecidableEq τ] in
/-- An entry without dependencies is that of a service that declares none. -/
theorem declares_iff (h : Complete S.toServices (S.ordered services) E) {e : ServiceEntry ι τ}
    (he : e ∈ E) : e.dependencies = ∅ ↔ S.getServiceDependencies e.service = [] := by
  have hneeds := h.inv.needs e he (h.collected e he)
  constructor
  · intro hempty
    refine List.eq_nil_iff_forall_not_mem.2 fun t ht => ?_
    have := (hneeds t).2 (Or.inl ht)
    rw [hempty] at this
    exact absurd this (Finset.notMem_empty t)
  · intro hnil
    refine Finset.eq_empty_of_forall_notMem fun t ht => ?_
    rcases (hneeds t).1 ht with ht | ⟨o, ho, -⟩
    · rw [hnil] at ht
      cases ht
    · exact declares_of_reaches ho hnil

omit [DecidableEq ι] in
/-- What is put behind the services with dependencies declares none. -/
theorem not_declares (h : Complete S.toServices (S.ordered services) E) (hperm : sorted.Perm E)
    {s : ι} (hs : s ∈ ((sorted.filter fun e => e.dependencies = ∅).map (·.service)).reverse ++
      (services.filter S.shutdown).filter fun s => !S.initialization s) :
    S.getServiceDependencies s = [] := by
  rcases List.mem_append.1 hs with hs | hs
  · obtain ⟨e, he, rfl⟩ := List.mem_map.1 (List.mem_reverse.1 hs)
    obtain ⟨he, hempty⟩ := List.mem_filter.1 he
    exact (declares_iff h (hperm.mem_iff.1 he)).1 (of_decide_eq_true hempty)
  · refine S.declares s ?_
    simpa using (List.mem_filter.1 hs).2

omit [DecidableEq ι] in
theorem order_perm (h : Complete S.toServices (S.ordered services) E) (hperm : sorted.Perm E) :
    (S.order services sorted).Perm (services.filter S.shutdown) := by
  have hsplit : ((sorted.filter fun e => ¬ e.dependencies = ∅) ++
      sorted.filter fun e => e.dependencies = ∅).Perm sorted := by
    refine List.perm_append_comm.trans ?_
    simpa using List.filter_append_perm (fun e => decide (e.dependencies = ∅)) sorted
  have hmap := ((hsplit.trans hperm).map (·.service)).trans h.perm
  rw [List.map_append] at hmap
  rw [order, ← List.append_assoc]
  have hreverse := ((List.reverse_perm _).append (List.reverse_perm _)).trans hmap
  refine (hreverse.append_right _).trans ?_
  exact List.filter_append_perm S.initialization (services.filter S.shutdown)

/-- Linked services are shut down before those they depend on. -/
theorem order_pairwise (hlinked : S.Linked services)
    (h : Complete S.toServices (S.ordered services) E)
    (hs : MergeSorted (fun left right => right.isDependsOn S.toServices left) E sorted) :
    (S.order services sorted).Pairwise fun a b => ¬ S.Reaches services b a := by
  have hrest : ∀ b ∈ ((sorted.filter fun e => e.dependencies = ∅).map (·.service)).reverse ++
      (services.filter S.shutdown).filter (fun s => !S.initialization s),
      ∀ a, ¬ S.Reaches services b a := fun b hb a hr =>
    declares_of_reaches hr (not_declares h hs.perm hb)
  refine List.pairwise_append.2 ⟨?_, ?_, fun a _ b hb => hrest b hb a⟩
  · rw [List.pairwise_reverse, List.pairwise_map]
    refine ((h.sorted hs).filter _).imp_of_mem fun {a b} ha hb hnot hr => hnot ?_
    have hmem : ∀ e ∈ sorted, e.service ∈ S.ordered services := fun e he =>
      h.inv.mem e (hs.perm.mem_iff.1 he)
    obtain ⟨hb, hdeps⟩ := List.mem_filter.1 hb
    have ha := mem_ordered.1 (hmem a (List.mem_filter.1 ha).1)
    have hb' := mem_ordered.1 (hmem b hb)
    refine hlinked _ _ ha.1 ha.2.1 hb'.2.1 hr fun hnil => ?_
    exact of_decide_eq_true hdeps ((declares_iff h (hs.perm.mem_iff.1 hb)).2 hnil)
  · exact List.pairwise_of_forall_mem_list fun a _ b hb => hrest b hb a

/-- A dependency of the first service that is not linked is shut down before it. -/
theorem linked_of_pairwise {s o : ι} {q : List ι} (hq : S.ordered services = s :: q)
    (h : Complete S.toServices (S.ordered services) E)
    (hs : MergeSorted (fun left right => right.isDependsOn S.toServices left) E sorted)
    (hp : (S.order services sorted).Pairwise fun a b => ¬ S.Reaches services b a)
    (hacyclic : S.Acyclic services) (hr : S.Reaches services s o) (ho : S.shutdown o = true)
    (hdeclares : S.getServiceDependencies o ≠ []) : S.Reaches (S.ordered services) s o := by
  obtain ⟨x, B, rfl, rfl⟩ := h.first s q hq
  by_contra hnot
  obtain ⟨pre, post, rfl, hpre⟩ := h.before hs
  obtain ⟨e, he, rfl⟩ := List.mem_map.1 (h.perm.mem_iff.2 (mem_ordered.2
    ⟨mem_of_reaches hr, ho, initialization_of_declares hdeclares⟩))
  have hkeep : ∀ e' ∈ x :: B, S.getServiceDependencies e'.service ≠ [] →
      decide (¬ e'.dependencies = ∅) = true := fun e' he' hd =>
    decide_eq_true fun hempty => hd ((declares_iff h he').1 hempty)
  have hpost : e ∈ post := by
    rcases List.mem_append.1 (hs.perm.mem_iff.2 he) with hm | hm
    · exact absurd (hpre e hm) hnot
    · rcases List.mem_cons.1 hm with rfl | hm
      · exact absurd hr (hacyclic _)
      · exact hm
  have hdep := (List.pairwise_append.1 hp).1
  rw [List.pairwise_reverse, List.pairwise_map, List.filter_append,
    List.filter_cons_of_pos (p := fun e : ServiceEntry ι τ => decide (¬ e.dependencies = ∅))
      (hkeep x List.mem_cons_self (declares_of_reaches hr))] at hdep
  have hx := (List.pairwise_cons.1 (List.pairwise_append.1 hdep).2.1).1
  exact hx e (List.mem_filter.2 ⟨hpost, hkeep e he hdeclares⟩) hr

/-- **The order of the shutdown.**  For every order of registration a service is shut down before
those it depends on, exactly when the services are linked. -/
theorem shutdownServices_spec (S : Registered ι τ) {sort : ListSort ι τ}
    (hsort : ∀ less l, MergeSorted less l (sort less l)) {services : List ι}
    (hnodup : services.Nodup) (hacyclic : S.Acyclic services) :
    (∀ registered, registered.Perm services → ∃ started,
      shutdownServices S sort registered = .ok started ∧
      started.Perm (registered.filter S.shutdown) ∧
      started.Pairwise fun a b => ¬ S.Reaches services b a) ↔ S.Linked services := by
  constructor
  · intro hall s o hs hss ho hr hdeclares
    -- the registration that starts with `s`
    have hperm : (s :: services.erase s).Perm services := (List.perm_cons_erase hs).symm
    have hi := initialization_of_declares (declares_of_reaches hr)
    have hr' := (Services.reaches_perm hperm).2 hr
    have hacyclic' := acyclic_perm hperm.symm hacyclic
    obtain ⟨E, sorted, hcomplete, hsorted, hout⟩ :=
      shutdownServices_eq hsort (hperm.nodup_iff.2 hnodup) hacyclic'
    obtain ⟨started, hstarted, -, hp⟩ := hall _ hperm
    obtain rfl := Except.ok.inj (hout.symm.trans hstarted)
    have hp' := hp.imp fun {a b} hnot hba => hnot ((Services.reaches_perm hperm).1 hba)
    have hfiltered := linked_of_pairwise (ordered_cons hss hi) hcomplete hsorted hp' hacyclic' hr'
      ho hdeclares
    exact (Services.reaches_perm ((hperm.filter _).filter _)).1 hfiltered
  · intro hlinked registered hperm
    obtain ⟨E, sorted, hcomplete, hsorted, hout⟩ :=
      shutdownServices_eq hsort (hperm.nodup_iff.2 hnodup) (acyclic_perm hperm.symm hacyclic)
    refine ⟨_, hout, order_perm hcomplete hsorted.perm, ?_⟩
    exact (order_pairwise (linked_perm hperm.symm hlinked) hcomplete hsorted).imp
      fun {a b} hnot hba => hnot ((Services.reaches_perm hperm).2 hba)

end Registered

/-- A chain of services that are all initialized, of which those in `shutdown` shut down. -/
def shutdownChain (n : Nat) (shutdown : Fin (n + 1) → Bool) :
    Registered (Fin (n + 1)) (Fin (n + 1)) where
  toServices := chain n
  initialization _ := true
  shutdown := shutdown
  declares _ h := nomatch h

theorem shutdownChain_acyclic {n : Nat} {shutdown : Fin (n + 1) → Bool} {l : List (Fin (n + 1))} :
    (shutdownChain n shutdown).Acyclic l := fun _ hr => Nat.lt_irrefl _ (chain_lt hr)

theorem shutdownChain_started : ∃ started,
    shutdownServices (shutdownChain 2 fun _ => true) mergeSort [1, 0, 2] = .ok started ∧
    started.Perm [1, 0, 2] ∧
    started.Pairwise fun a b => ¬ (chain 2).Reaches [0, 1, 2] b a :=
  (Registered.shutdownServices_spec (shutdownChain 2 fun _ => true)
    (fun _ => mergeSorted_mergeSort) (by decide : ([0, 1, 2] : List (Fin 3)).Nodup)
    shutdownChain_acyclic).2 (fun _ _ _ _ _ hr _ => hr) [1, 0, 2] (by decide)

/-- The second service of a chain of four has no shutdown step: the third one is shut down before
the first, which depends on it. -/
theorem shutdownChain_gap :
    (shutdownChain 3 fun s => s ≠ 1).Acyclic [0, 1, 2, 3] ∧
    (chain 3).Reaches [0, 1, 2, 3] 0 2 ∧
    shutdownServices (shutdownChain 3 fun s => s ≠ 1) mergeSort [0, 1, 2, 3] = .ok [2, 0, 3] := by
  refine ⟨shutdownChain_acyclic, ?_, rfl⟩
  exact .tail (.single ⟨by decide, by decide, by decide⟩) (b := 1)
    ⟨by decide, by decide, by decide⟩

end MyEngine.Service
