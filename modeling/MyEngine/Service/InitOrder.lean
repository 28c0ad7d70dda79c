import MyEngine.Service.Dependencies

/-!
# Service — InitOrder

`takeOutServiceList`: the services in the order in which they are initialized.

* `visitAll_spec`: the walk from every service in turn.
* `isDependsOn_iff`: the comparison of the sort is the dependency relation.
* `takeOutServiceList_spec`: every service comes behind those it depends on, and the check for a
  cycle fails exactly when there is one.

`std::list::sort` is a parameter: any merge sort that compares the right head with the left one.
-/

namespace MyEngine.Service

open MergeSort Relation

variable {ι τ : Type} [DecidableEq ι] [DecidableEq τ]

/-- `std::list::sort`. -/
abbrev ListSort (ι τ : Type) : Type :=
  (ServiceEntry ι τ → ServiceEntry ι τ → Bool) → List (ServiceEntry ι τ) → List (ServiceEntry ι τ)

def takeOutServiceList (S : Services ι τ) (sort : ListSort ι τ) (allServices : List ι) :
    Except Failure (List (ServiceEntry ι τ) × List (ServiceEntry ι τ)) := do
  let m_services ← allServices.foldlM (getServiceEntry S allServices (allServices.length + 1)) []
  if m_services.length ≠ allServices.length then .error .size
  else
    let m_services := sort (fun left right => right.isDependsOn S left) m_services
    let servicesWithNoDependencies := m_services.filter fun e => e.dependencies = ∅
    let m_services := m_services.filter fun e => ¬ e.dependencies = ∅
    if m_services.length + servicesWithNoDependencies.length ≠ allServices.length then
      .error .size
    else .ok (servicesWithNoDependencies, m_services)

variable {S : Services ι τ} {allServices : List ι} {E : List (ServiceEntry ι τ)}

/-- No service depends on itself through others. -/
def Services.Acyclic (S : Services ι τ) (allServices : List ι) : Prop :=
  ∀ s, ¬ S.Reaches allServices s s

omit [DecidableEq ι] [DecidableEq τ] in
theorem mem_of_reaches {s o : ι} (h : S.Reaches allServices s o) : o ∈ allServices := by
  cases h with
  | single hd => exact hd.1
  | tail _ hd => exact hd.1

/-- All the entries, when every service has been visited. -/
structure Complete (S : Services ι τ) (allServices : List ι) (E : List (ServiceEntry ι τ)) :
    Prop where
  inv : Inv S allServices E
  collected : ∀ e ∈ E, e.collectingDependencies = false
  perm : (E.map (·.service)).Perm allServices
  first : ∀ s q, allServices = s :: q → ∃ x B, E = x :: B ∧ x.service = s

/-- The walk from every service in turn, from where `p` have been visited. -/
theorem visitAll_spec {p q : List ι} (hsplit : allServices = p ++ q)
    (h : Inv S allServices E) (hc : ∀ e ∈ E, e.collectingDependencies = false)
    (hp : ∀ s ∈ p, ∃ e ∈ E, e.service = s) :
    (∃ E', q.foldlM (getServiceEntry S allServices (allServices.length + 1)) E = .ok E' ∧
      E <+: E' ∧ Inv S allServices E' ∧ (∀ e ∈ E', e.collectingDependencies = false) ∧
      ∀ s ∈ allServices, ∃ e ∈ E', e.service = s) ∨
    q.foldlM (getServiceEntry S allServices (allServices.length + 1)) E = .error .cyclic ∧
      ∃ c, S.Reaches allServices c c := by
  induction q generalizing p E with
  | nil =>
      rw [List.append_nil] at hsplit
      exact Or.inl ⟨E, rfl, List.prefix_rfl, h, hc, hsplit ▸ hp⟩
  | cons s q ih =>
      have hs : s ∈ allServices := by
        rw [hsplit]
        exact List.mem_append_right _ List.mem_cons_self
      rw [List.foldlM_cons]
      rcases getServiceEntry_spec (allServices.length + 1) (by omega) h hs
        fun e he hce => nomatch (hc e he).symm.trans hce with ⟨E', hE', hv⟩ | ⟨herr, hcycle⟩
      · rw [hE']
        obtain ⟨B, rfl, hB⟩ := hv.new
        have hnext := ih (p := p ++ [s]) (by rw [hsplit, List.append_assoc]; rfl) hv.inv
          (fun e he => ?_) fun o ho => ?_
        · refine hnext.imp_left fun ⟨E', hE', hpre, h⟩ => ⟨E', hE', ?_, h⟩
          exact (List.prefix_append E B).trans hpre
        · rcases List.mem_append.1 he with he | he
          · exact hc e he
          · exact (hB e he).1
        · rcases List.mem_append.1 ho with ho | ho
          · obtain ⟨e, he, hes⟩ := hp o ho
            exact ⟨e, List.mem_append_left _ he, hes⟩
          · obtain ⟨e, he, hes, -⟩ := hv.done
            exact ⟨e, he, hes.trans (List.mem_singleton.1 ho).symm⟩
      · rw [herr]
        exact Or.inr ⟨rfl, hcycle⟩

omit [DecidableEq ι] [DecidableEq τ] in
theorem Complete.acyclic (h : Complete S allServices E) : S.Acyclic allServices := by
  intro s hr
  obtain ⟨e, he, rfl⟩ := List.mem_map.1 (h.perm.mem_iff.2 (mem_of_reaches hr))
  exact h.inv.acyclic e he (h.collected e he) hr

/-- The comparison of the sort. -/
theorem Complete.isDependsOn_iff (h : Complete S allServices E) {e other : ServiceEntry ι τ}
    (he : e ∈ E) (hother : other ∈ E) :
    e.isDependsOn S other = true ↔ S.Reaches allServices e.service other.service := by
  have hneeds := h.inv.needs e he (h.collected e he)
  have hall := h.inv.mem other hother
  rw [ServiceEntry.isDependsOn]
  constructor
  · intro hd
    split at hd
    case isTrue => cases hd
    case isFalse hne =>
      obtain ⟨t, ht, his⟩ := of_decide_eq_true hd
      have hany : ∀ o, t ∈ S.getServiceDependencies o →
          S.isDependencyFor other.service (S.getServiceDependencies o) = true := fun o ho =>
        List.any_eq_true.2 ⟨t, ho, his⟩
      rcases (hneeds t).1 ht with ht | ⟨o, ho, ht⟩
      · exact .single ⟨hall, fun hs => hne (Or.inr hs), hany _ ht⟩
      · by_cases hs : other.service = o
        · exact hs ▸ ho
        · exact ho.tail ⟨hall, hs, hany _ ht⟩
  · intro hr
    obtain ⟨c, hc, hd⟩ := TransGen.tail'_iff.1 hr
    obtain ⟨t, ht, his⟩ := List.any_eq_true.1 hd.2.2
    have ht' : t ∈ e.dependencies := by
      refine (hneeds t).2 ?_
      rcases reflTransGen_iff_eq_or_transGen.1 hc with rfl | hc
      · exact Or.inl ht
      · exact Or.inr ⟨c, hc, ht⟩
    rw [if_neg]
    · exact decide_eq_true ⟨t, ht', his⟩
    · rintro (h0 | hs)
      · rw [h0] at ht'
        exact absurd ht' (Finset.notMem_empty t)
      · exact h.acyclic _ (hs ▸ hr)

/-- The two lists that `takeOutServiceList` makes of the entries. -/
theorem takeOutServiceList_of_walk {sort : ListSort ι τ}
    (hsort : ∀ less l, MergeSorted less l (sort less l)) (h : Complete S allServices E)
    (hwalk : allServices.foldlM (getServiceEntry S allServices (allServices.length + 1)) [] =
      .ok E) :
    ∃ sorted, MergeSorted (fun left right => right.isDependsOn S left) E sorted ∧
      takeOutServiceList S sort allServices = .ok (sorted.filter fun e => e.dependencies = ∅,
        sorted.filter fun e => ¬ e.dependencies = ∅) := by
  have hs := hsort (fun left right => right.isDependsOn S left) E
  refine ⟨_, hs, ?_⟩
  have hlen : E.length = allServices.length := by
    rw [← h.perm.length_eq, List.length_map]
  have hsum := List.length_eq_length_filter_add
    (l := sort (fun left right => right.isDependsOn S left) E) fun e => decide (e.dependencies = ∅)
  rw [hs.perm.length_eq, hlen] at hsum
  rw [takeOutServiceList, hwalk]
  change (if E.length ≠ allServices.length then _ else _) = _
  rw [if_neg (not_not.2 hlen), if_neg]
  simp only [decide_not]
  omega

/-- In `l` every service comes behind those it depends on. -/
def Services.InOrder (S : Services ι τ) (allServices l : List ι) : Prop :=
  ∀ pre s post, l = pre ++ s :: post → ∀ o, S.Reaches allServices s o → o ∈ pre

omit [DecidableEq ι] [DecidableEq τ] in
theorem inOrder_of_pairwise {l : List ι} (hperm : l.Perm allServices)
    (hacyclic : S.Acyclic allServices) (h : l.Pairwise fun a b => ¬ S.Reaches allServices a b) :
    S.InOrder allServices l := by
  rintro pre s post rfl o ho
  rcases List.mem_append.1 (hperm.mem_iff.2 (mem_of_reaches ho)) with hm | hm
  · exact hm
  · rcases List.mem_cons.1 hm with rfl | hm
    · exact absurd ho (hacyclic o)
    · have hpost := (List.pairwise_cons.1 (List.pairwise_append.1 h).2.1).1
      exact absurd ho (hpost o hm)

open Classical in
/-- The sort goes by the dependency relation. -/
theorem Complete.mergeSorted (h : Complete S allServices E) {sorted : List (ServiceEntry ι τ)}
    (hs : MergeSorted (fun left right => right.isDependsOn S left) E sorted) :
    MergeSorted (fun b a : ServiceEntry ι τ =>
      decide (S.Reaches allServices a.service b.service)) E sorted :=
  hs.congr fun _ ha _ hb =>
    Bool.eq_iff_iff.2 ((h.isDependsOn_iff ha hb).trans decide_eq_true_iff.symm)

open Classical in
theorem Complete.sorted (h : Complete S allServices E) {sorted : List (ServiceEntry ι τ)}
    (hs : MergeSorted (fun left right => right.isDependsOn S left) E sorted) :
    sorted.Pairwise fun a b => ¬ S.Reaches allServices a.service b.service :=
  (h.mergeSorted hs).topological
    (R := fun a b : ServiceEntry ι τ => S.Reaches allServices a.service b.service)
    (fun _ _ => decide_eq_true_iff) (fun _ _ _ => TransGen.trans) (fun a => h.acyclic a.service)
    (grouped_map.1 h.inv.grouped)

open Classical in
/-- Only services that the first one depends on come before it. -/
theorem Complete.before {x : ServiceEntry ι τ} {B sorted : List (ServiceEntry ι τ)}
    (h : Complete S allServices (x :: B))
    (hs : MergeSorted (fun left right => right.isDependsOn S left) (x :: B) sorted) :
    ∃ pre post, sorted = pre ++ x :: post ∧
      ∀ z ∈ pre, S.Reaches allServices x.service z.service :=
  (h.mergeSorted hs).before
    (R := fun a b : ServiceEntry ι τ => S.Reaches allServices a.service b.service)
    (fun _ _ => decide_eq_true_iff) (fun _ _ _ => TransGen.trans)

/-- The sorted entries, without dependencies first. -/
theorem Complete.inOrder (h : Complete S allServices E) {sorted : List (ServiceEntry ι τ)}
    (hs : MergeSorted (fun left right => right.isDependsOn S left) E sorted) :
    (((sorted.filter fun e => e.dependencies = ∅) ++
      sorted.filter fun e => ¬ e.dependencies = ∅).map (·.service)).Perm allServices ∧
    S.InOrder allServices (((sorted.filter fun e => e.dependencies = ∅) ++
      sorted.filter fun e => ¬ e.dependencies = ∅).map (·.service)) := by
  have hperm : (((sorted.filter fun e => e.dependencies = ∅) ++
      sorted.filter fun e => ¬ e.dependencies = ∅).map (·.service)).Perm allServices := by
    refine ((List.Perm.trans ?_ hs.perm).map _).trans h.perm
    simpa using List.filter_append_perm (fun e => decide (e.dependencies = ∅)) sorted
  have hsorted := h.sorted hs
  refine ⟨hperm, inOrder_of_pairwise hperm h.acyclic (List.pairwise_map.2 ?_)⟩
  refine List.pairwise_append.2 ⟨hsorted.filter _, hsorted.filter _, fun a ha b hb hr => ?_⟩
  -- an entry without dependencies depends on nothing
  obtain ⟨ha, hnone⟩ := List.mem_filter.1 ha
  have ha := hs.perm.mem_iff.1 ha
  have hb := hs.perm.mem_iff.1 (List.mem_filter.1 hb).1
  have hd := (h.isDependsOn_iff ha hb).2 hr
  rw [ServiceEntry.isDependsOn, if_pos (Or.inl (of_decide_eq_true hnone))] at hd
  cases hd

/-- The first service is the first one that the walk meets. -/
theorem walk_first {s : ι} {q : List ι} (hq : allServices = s :: q)
    (hE : allServices.foldlM (getServiceEntry S allServices (allServices.length + 1)) [] = .ok E) :
    ∃ x B, E = x :: B ∧ x.service = s := by
  have hs : s ∈ allServices := hq ▸ List.mem_cons_self
  have hE : (s :: q).foldlM (getServiceEntry S allServices (allServices.length + 1)) [] =
      .ok E := by
    rw [← hq]
    exact hE
  rw [List.foldlM_cons] at hE
  rcases getServiceEntry_spec (S := S) (allServices.length + 1) (by simp) Inv.nil hs nofun with
    ⟨E₁, hE₁, hv⟩ | ⟨herr, -⟩
  · rw [hE₁] at hE
    obtain ⟨x, B, rfl, hx⟩ := hv.first nofun
    obtain ⟨B', hB', hnew⟩ := hv.new
    obtain rfl : x :: B = B' := hB'
    rcases visitAll_spec (p := [s]) hq hv.inv (fun e he => (hnew e he).1)
      (fun o ho => ⟨x, List.mem_cons_self, hx.trans (List.mem_singleton.1 ho).symm⟩) with
      ⟨E', hE', ⟨B', rfl⟩, -⟩ | ⟨herr, -⟩
    · obtain rfl := Except.ok.inj (hE'.symm.trans hE)
      exact ⟨x, B ++ B', rfl, hx⟩
    · cases herr.symm.trans hE
  · rw [herr] at hE
    cases hE

/-- The walk from every service, from an empty list. -/
theorem walk_all (hnodup : allServices.Nodup) :
    (∃ E, allServices.foldlM (getServiceEntry S allServices (allServices.length + 1)) [] = .ok E ∧
      Complete S allServices E) ∨
    allServices.foldlM (getServiceEntry S allServices (allServices.length + 1)) [] =
      .error .cyclic ∧ ∃ c, S.Reaches allServices c c := by
  rcases visitAll_spec (S := S) (p := []) (q := allServices) rfl Inv.nil nofun nofun with
    ⟨E, hE, -, hinv, hc, hall⟩ | herr
  · refine Or.inl ⟨E, hE, hinv, hc, ?_, fun s q hq => walk_first hq hE⟩
    refine (List.perm_ext_iff_of_nodup hinv.nodup hnodup).2 fun s => ⟨fun hs => ?_, fun hs => ?_⟩
    · obtain ⟨e, he, rfl⟩ := List.mem_map.1 hs
      exact hinv.mem e he
    · obtain ⟨e, he, rfl⟩ := hall s hs
      exact List.mem_map_of_mem he
  · exact Or.inr herr

/-- **The order of the initialization**, for every order of registration: every service comes once
and behind those it depends on; the check for a cycle fails when there is one, and only then. -/
theorem takeOutServiceList_spec (S : Services ι τ) {sort : ListSort ι τ}
    (hsort : ∀ less l, MergeSorted less l (sort less l)) {allServices : List ι}
    (hnodup : allServices.Nodup) :
    (S.Acyclic allServices → ∃ independent dependent,
      takeOutServiceList S sort allServices = .ok (independent, dependent) ∧
      ((independent ++ dependent).map (·.service)).Perm allServices ∧
      S.InOrder allServices ((independent ++ dependent).map (·.service))) ∧
    (takeOutServiceList S sort allServices = .error .cyclic ↔ ¬ S.Acyclic allServices) := by
  rcases walk_all (S := S) hnodup with ⟨E, hE, hcomplete⟩ | ⟨herr, c, hcycle⟩
  · obtain ⟨sorted, hs, hout⟩ := takeOutServiceList_of_walk hsort hcomplete hE
    refine ⟨fun _ => ⟨_, _, hout, hcomplete.inOrder hs⟩, fun hf => ?_, fun hn => ?_⟩
    · cases hout.symm.trans hf
    · exact absurd hcomplete.acyclic hn
  · refine ⟨fun ha => absurd hcycle (ha c), fun _ ha => ha c hcycle, fun _ => ?_⟩
    rw [takeOutServiceList, herr]
    rfl

/-- Each service but the last declares the type that the next one provides. -/
def chain (n : Nat) : Services (Fin (n + 1)) (Fin (n + 1)) where
  is s t := decide (s = t)
  getServiceDependencies s := (List.finRange (n + 1)).filter fun t => t.val = s.val + 1

theorem chain_lt {n : Nat} {all : List (Fin (n + 1))} {s o : Fin (n + 1)}
    (h : (chain n).Reaches all s o) : s < o := by
  have hstep : ∀ {s o}, (chain n).DependsOn all s o → s < o := by
    intro s o hd
    obtain ⟨t, ht, his⟩ := List.any_eq_true.1 hd.2.2
    obtain rfl := of_decide_eq_true his
    have hval := of_decide_eq_true (List.mem_filter.1 ht).2
    exact Fin.lt_def.2 (hval ▸ Nat.lt_succ_self _)
  induction h with
  | single hd => exact hstep hd
  | tail _ hd ih => exact Nat.lt_trans ih (hstep hd)

theorem chain_initialized : ∃ independent dependent,
    takeOutServiceList (chain 2) mergeSort [0, 1, 2] = .ok (independent, dependent) ∧
    ((independent ++ dependent).map (·.service)).Perm [0, 1, 2] ∧
    (chain 2).InOrder [0, 1, 2] ((independent ++ dependent).map (·.service)) :=
  (takeOutServiceList_spec (chain 2) (fun _ => mergeSorted_mergeSort) (by decide)).1
    fun _ hr => Nat.lt_irrefl _ (chain_lt hr)

/-- `s` declares a type that `o` provides, which may be `s` itself. -/
def Services.Declares (S : Services ι τ) (allServices : List ι) (s o : ι) : Prop :=
  o ∈ allServices ∧ S.isDependencyFor o (S.getServiceDependencies s) = true

/-- A service that declares the type it provides. -/
def own : Services Unit Unit where
  is _ _ := true
  getServiceDependencies _ := [()]

/-- What a service declares and provides itself does not count. -/
theorem own_initialized : TransGen (own.Declares [()]) () () ∧
    takeOutServiceList own mergeSort [()] ≠ .error .cyclic := by
  refine ⟨.single ⟨List.mem_singleton_self _, rfl⟩, fun hf => ?_⟩
  have hout : ∃ r, takeOutServiceList own mergeSort [()] = .ok r := ⟨_, rfl⟩
  obtain ⟨r, hr⟩ := hout
  cases hr.symm.trans hf

end MyEngine.Service
