import Mathlib.Data.Finset.Basic
import Mathlib.Logic.Relation
import MyEngine.Support.Keyed
import MyEngine.Support.MergeSort

/-!
# Service — Dependencies

`OrderedServiceListBuilder` of `service_provider_impl.cpp`: the walk that collects the dependencies
of the services.

* `Services`: the types that the services provide and declare as dependencies.
* `getServiceEntry`: the walk, with the entries in the order in which it meets the services.
* `DependsOn`: a service depends on another one that provides a type it declares.
* `getServiceEntry_spec`: the walk goes through, or the services depend on each other in a cycle.
-/

namespace MyEngine.Service

open MergeSort Relation

variable {ι τ : Type}

/-- What `IServiceInitialization` tells of the services. -/
structure Services (ι τ : Type) where
  is : ι → τ → Bool
  getServiceDependencies : ι → List τ

structure ServiceEntry (ι τ : Type) where
  service : ι
  collectingDependencies : Bool := true
  dependencies : Finset τ := ∅

/-- The fatal checks.  `depth` stands for a recursion deeper than `fuel`. -/
inductive Failure where
  | cyclic
  | size
  | depth
  deriving DecidableEq, Repr

section

variable [DecidableEq ι] [DecidableEq τ]

def Services.isDependencyFor (S : Services ι τ) (service : ι) (types : List τ) : Bool :=
  types.any (S.is service)

def ServiceEntry.appendDependencies (e : ServiceEntry ι τ) (types : Finset τ) :
    ServiceEntry ι τ :=
  { e with dependencies := e.dependencies ∪ types }

def ServiceEntry.isDependsOn (S : Services ι τ) (e other : ServiceEntry ι τ) : Bool :=
  if e.dependencies = ∅ ∨ other.service = e.service then false
  else decide (∃ t ∈ e.dependencies, S.is other.service t = true)

/-- A write to the entry of a service through the reference to it. -/
def setEntry (m_services : List (ServiceEntry ι τ)) (service : ι)
    (f : ServiceEntry ι τ → ServiceEntry ι τ) : List (ServiceEntry ι τ) :=
  m_services.map fun e => if e.service = service then f e else e

/-- The `dependencies` of the entry that a call has returned. -/
def dependenciesOf (m_services : List (ServiceEntry ι τ)) (service : ι) : Finset τ :=
  ((m_services.find? fun e => e.service = service).map (·.dependencies)).getD ∅

/-- The loop over `m_allServices` at one of them; `visit` is `getServiceEntry`. -/
def appendFrom (S : Services ι τ)
    (visit : List (ServiceEntry ι τ) → ι → Except Failure (List (ServiceEntry ι τ))) (service : ι)
    (m_services : List (ServiceEntry ι τ)) (otherService : ι) :
    Except Failure (List (ServiceEntry ι τ)) :=
  if otherService = service then .ok m_services
  else if S.isDependencyFor otherService (S.getServiceDependencies service) then do
    let m_services ← visit m_services otherService
    .ok (setEntry m_services service fun e =>
      e.appendDependencies (dependenciesOf m_services otherService))
  else .ok m_services

/-- `getServiceEntry`, with the new `m_services`; calls may nest up to `fuel` deep. -/
def getServiceEntry (S : Services ι τ) (allServices : List ι) :
    Nat → List (ServiceEntry ι τ) → ι → Except Failure (List (ServiceEntry ι τ))
  | 0, _, _ => .error .depth
  | fuel + 1, m_services, service =>
      match m_services.find? fun e => e.service = service with
      | some entry => if entry.collectingDependencies then .error .cyclic else .ok m_services
      | none => do
          let directDependencies := S.getServiceDependencies service
          let entry : ServiceEntry ι τ := { service := service }
          let m_services ← (if directDependencies = [] then .ok (m_services ++ [entry])
            else allServices.foldlM (appendFrom S (getServiceEntry S allServices fuel) service)
              (m_services ++ [entry.appendDependencies directDependencies.toFinset]))
          .ok (setEntry m_services service fun e => { e with collectingDependencies := false })

end

/-! ### The graph -/

/-- `s` depends on another service that provides a type it declares. -/
def Services.DependsOn (S : Services ι τ) (allServices : List ι) (s o : ι) : Prop :=
  o ∈ allServices ∧ o ≠ s ∧ S.isDependencyFor o (S.getServiceDependencies s) = true

/-- Directly or through others. -/
def Services.Reaches (S : Services ι τ) (allServices : List ι) : ι → ι → Prop :=
  TransGen (S.DependsOn allServices)

/-- The types `s` or a service it depends on declares. -/
def Services.Needs (S : Services ι τ) (allServices : List ι) (s : ι) (t : τ) : Prop :=
  t ∈ S.getServiceDependencies s ∨
    ∃ o, S.Reaches allServices s o ∧ t ∈ S.getServiceDependencies o

variable {S : Services ι τ} {allServices : List ι}

theorem needs_iff {s : ι} {t : τ} :
    S.Needs allServices s t ↔ t ∈ S.getServiceDependencies s ∨
      ∃ o, S.DependsOn allServices s o ∧ S.Needs allServices o t := by
  constructor
  · rintro (h | ⟨o, hr, h⟩)
    · exact Or.inl h
    · obtain ⟨c, hc, hco⟩ := TransGen.head'_iff.1 hr
      refine Or.inr ⟨c, hc, ?_⟩
      rcases reflTransGen_iff_eq_or_transGen.1 hco with rfl | hco
      · exact Or.inl h
      · exact Or.inr ⟨o, hco, h⟩
  · rintro (h | ⟨o, hd, h | ⟨c, hr, h⟩⟩)
    · exact Or.inl h
    · exact Or.inr ⟨o, .single hd, h⟩
    · exact Or.inr ⟨c, .head hd hr, h⟩

/-! ### What the walk keeps -/

/-- An entry whose dependencies are collected is right, and everything its service depends on is
collected; what follows an entry that is still collecting belongs to it. -/
structure Inv (S : Services ι τ) (allServices : List ι) (E : List (ServiceEntry ι τ)) : Prop where
  nodup : (E.map (·.service)).Nodup
  mem : ∀ e ∈ E, e.service ∈ allServices
  needs : ∀ e ∈ E, e.collectingDependencies = false →
    ∀ t, t ∈ e.dependencies ↔ S.Needs allServices e.service t
  closed : ∀ e ∈ E, e.collectingDependencies = false → ∀ o, S.DependsOn allServices e.service o →
    ∃ e' ∈ E, e'.service = o ∧ e'.collectingDependencies = false
  acyclic : ∀ e ∈ E, e.collectingDependencies = false → ¬ S.Reaches allServices e.service e.service
  grouped : Grouped (S.Reaches allServices) (E.map (·.service))
  collecting : E.Pairwise fun e w => e.collectingDependencies = true →
    S.Reaches allServices e.service w.service

namespace Inv

variable {E E₀ B : List (ServiceEntry ι τ)} {s : ι}

theorem nil : Inv S allServices [] where
  nodup := .nil
  mem := nofun
  needs := nofun
  closed := nofun
  acyclic := nofun
  grouped := trivial
  collecting := .nil

/-- The entry of a service is the only one. -/
theorem eq_of_service (h : Inv S allServices E) {e e' : ServiceEntry ι τ} (he : e ∈ E)
    (he' : e' ∈ E) (hs : e.service = e'.service) : e = e' :=
  Support.key_inj h.nodup he he' hs

theorem reaches (h : Inv S allServices E) {e : ServiceEntry ι τ} (he : e ∈ E)
    (hc : e.collectingDependencies = false) {o : ι} (ho : S.Reaches allServices e.service o) :
    ∃ e' ∈ E, e'.service = o ∧ e'.collectingDependencies = false := by
  induction ho with
  | single hd => exact h.closed e he hc _ hd
  | tail _ hd ih =>
      obtain ⟨e', he', rfl, hc'⟩ := ih
      exact h.closed e' he' hc' _ hd

theorem length_le (h : Inv S allServices E) : E.length ≤ allServices.length := by
  have hsub : E.map (·.service) ⊆ allServices := by
    intro s hs
    obtain ⟨e, he, rfl⟩ := List.mem_map.1 hs
    exact h.mem e he
  have := (List.subperm_of_subset h.nodup hsub).length_le
  rwa [List.length_map] at this

/-- A write to the entry of a service that is collecting, which may end that. -/
theorem replace {x y : ServiceEntry ι τ} (h : Inv S allServices (E₀ ++ x :: B))
    (hx : x.collectingDependencies = true) (hs : y.service = x.service)
    (hdone : y.collectingDependencies = false →
      (∀ t, t ∈ y.dependencies ↔ S.Needs allServices y.service t) ∧
      (∀ o, S.DependsOn allServices y.service o →
        ∃ e ∈ E₀ ++ x :: B, e.service = o ∧ e.collectingDependencies = false) ∧
      ¬ S.Reaches allServices y.service y.service) :
    Inv S allServices (E₀ ++ y :: B) := by
  have hmap : (E₀ ++ y :: B).map (·.service) = (E₀ ++ x :: B).map (·.service) := by
    rw [List.map_append, List.map_append, List.map_cons, List.map_cons, hs]
  have hmem : ∀ e ∈ E₀ ++ y :: B, e = y ∨ e ∈ E₀ ++ x :: B := by
    intro e he
    rcases List.mem_append.1 he with he | he
    · exact Or.inr (List.mem_append_left _ he)
    · rcases List.mem_cons.1 he with he | he
      · exact Or.inl he
      · exact Or.inr (List.mem_append_right _ (List.mem_cons_of_mem _ he))
  have hkeep : ∀ e ∈ E₀ ++ x :: B, e.collectingDependencies = false → e ∈ E₀ ++ y :: B := by
    intro e he hc
    rcases List.mem_append.1 he with he | he
    · exact List.mem_append_left _ he
    · rcases List.mem_cons.1 he with rfl | he
      · cases hx.symm.trans hc
      · exact List.mem_append_right _ (List.mem_cons_of_mem _ he)
  refine ⟨hmap ▸ h.nodup, fun e he => ?_, fun e he hc => ?_, fun e he hc o ho => ?_,
    fun e he hc => ?_, hmap ▸ h.grouped, ?_⟩
  · rcases hmem e he with rfl | he
    · exact hs ▸ h.mem x (List.mem_append_right _ List.mem_cons_self)
    · exact h.mem e he
  · rcases hmem e he with rfl | he
    · exact (hdone hc).1
    · exact h.needs e he hc
  · have hclosed : ∃ e' ∈ E₀ ++ x :: B, e'.service = o ∧ e'.collectingDependencies = false := by
      rcases hmem e he with rfl | he
      · exact (hdone hc).2.1 o ho
      · exact h.closed e he hc o ho
    obtain ⟨e', he', heo, hc'⟩ := hclosed
    exact ⟨e', hkeep e' he' hc', heo, hc'⟩
  · rcases hmem e he with rfl | he
    · exact (hdone hc).2.2
    · exact h.acyclic e he hc
  · obtain ⟨h₀, hxB, hcross⟩ := List.pairwise_append.1 h.collecting
    obtain ⟨hxB, hB⟩ := List.pairwise_cons.1 hxB
    refine List.pairwise_append.2 ⟨h₀, List.pairwise_cons.2 ⟨fun w hw _ => ?_, hB⟩,
      fun e he w hw hc => ?_⟩
    · exact hs ▸ hxB w hw hx
    · rcases List.mem_cons.1 hw with rfl | hw
      · exact hs ▸ hcross e he x List.mem_cons_self hc
      · exact hcross e he w (List.mem_cons_of_mem _ hw) hc

theorem grouped_snoc (hg : Grouped (S.Reaches allServices) (E.map (·.service)))
    (hc : E.Pairwise fun e w => e.collectingDependencies = true →
      S.Reaches allServices e.service w.service)
    (hs : ∀ e ∈ E, e.collectingDependencies = true ∨ ¬ S.Reaches allServices e.service s) :
    Grouped (S.Reaches allServices) (E.map (·.service) ++ [s]) := by
  induction E with
  | nil => exact ⟨.nil, trivial⟩
  | cons e E ih =>
      obtain ⟨hce, hc⟩ := List.pairwise_cons.1 hc
      refine ⟨?_, ih hg.2 hc fun e' he' => hs e' (List.mem_cons_of_mem e he')⟩
      refine List.pairwise_append.2 ⟨hg.1, List.pairwise_singleton _ s, fun w hw y hy hxy => ?_⟩
      rw [List.mem_singleton.1 hy] at hxy
      obtain ⟨e', he', rfl⟩ := List.mem_map.1 hw
      exact hce e' he' ((hs e List.mem_cons_self).resolve_right fun hn => hn hxy)

/-- A new entry, for a service that everything that is collecting depends on. -/
theorem snoc (h : Inv S allServices E) (hs : s ∈ allServices)
    (hnew : ∀ e ∈ E, e.service ≠ s)
    (hreach : ∀ e ∈ E, e.collectingDependencies = true → S.Reaches allServices e.service s)
    {x : ServiceEntry ι τ} (hx : x.service = s) (hc : x.collectingDependencies = true) :
    Inv S allServices (E ++ [x]) := by
  subst hx
  have hmap : (E ++ [x]).map (·.service) = E.map (·.service) ++ [x.service] := List.map_append
  have hdone : ∀ e ∈ E ++ [x], e.collectingDependencies = false → e ∈ E := by
    intro e he hce
    rcases List.mem_append.1 he with he | he
    · exact he
    · rw [List.mem_singleton.1 he, hc] at hce
      cases hce
  refine ⟨?_, fun e he => ?_, fun e he hce => h.needs e (hdone e he hce) hce,
    fun e he hce o ho => ?_, fun e he hce => h.acyclic e (hdone e he hce) hce, ?_, ?_⟩
  · rw [hmap]
    refine List.nodup_append.2 ⟨h.nodup, List.nodup_singleton _, fun a ha b hb hab => ?_⟩
    obtain ⟨e, he, rfl⟩ := List.mem_map.1 ha
    exact hnew e he (hab.trans (List.mem_singleton.1 hb))
  · rcases List.mem_append.1 he with he | he
    · exact h.mem e he
    · exact List.mem_singleton.1 he ▸ hs
  · obtain ⟨e', he', heo⟩ := h.closed e (hdone e he hce) hce o ho
    exact ⟨e', List.mem_append_left _ he', heo⟩
  · rw [hmap]
    refine grouped_snoc h.grouped h.collecting fun e he => ?_
    by_cases hce : e.collectingDependencies = true
    · exact Or.inl hce
    · refine Or.inr fun hr => ?_
      obtain ⟨e', he', hs', -⟩ := h.reaches he (Bool.eq_false_iff.2 hce) hr
      exact hnew e' he' hs'
  · refine List.pairwise_append.2 ⟨h.collecting, List.pairwise_singleton _ x,
      fun e he w hw hce => ?_⟩
    rw [List.mem_singleton.1 hw]
    exact hreach e he hce

end Inv

/-! ### The walk -/

section

variable {E E' E₀ B : List (ServiceEntry ι τ)} {s o : ι}

/-- The end of a call for `s`: new entries are behind the old ones, they belong to `s`, and the
dependencies of `s` are collected. -/
structure Visited (S : Services ι τ) (allServices : List ι) (E : List (ServiceEntry ι τ)) (s : ι)
    (E' : List (ServiceEntry ι τ)) : Prop where
  inv : Inv S allServices E'
  new : ∃ B, E' = E ++ B ∧ ∀ e ∈ B, e.collectingDependencies = false ∧
    (e.service = s ∨ S.Reaches allServices s e.service)
  done : ∃ e ∈ E', e.service = s ∧ e.collectingDependencies = false
  first : (∀ e ∈ E, e.service ≠ s) → ∃ x B, E' = E ++ x :: B ∧ x.service = s

/-- The entry of `s` is collecting, behind `E₀`; the services of `p` have been looked at. -/
structure Collecting (S : Services ι τ) (allServices : List ι) (E₀ : List (ServiceEntry ι τ))
    (s : ι) (p : List ι) (E : List (ServiceEntry ι τ)) : Prop where
  inv : Inv S allServices E
  entry : ∃ x B, E = E₀ ++ x :: B ∧ x.service = s ∧ x.collectingDependencies = true ∧
    (∀ t, t ∈ x.dependencies ↔ t ∈ S.getServiceDependencies s ∨
      ∃ o ∈ p, S.DependsOn allServices s o ∧ S.Needs allServices o t) ∧
    ∀ e ∈ B, e.collectingDependencies = false ∧ S.Reaches allServices s e.service
  done : ∀ o ∈ p, S.DependsOn allServices s o →
    ∃ e ∈ E, e.service = o ∧ e.collectingDependencies = false

variable [DecidableEq ι]

theorem setEntry_middle {x : ServiceEntry ι τ} {f : ServiceEntry ι τ → ServiceEntry ι τ}
    (hnodup : ((E₀ ++ x :: B).map (·.service)).Nodup) :
    setEntry (E₀ ++ x :: B) x.service f = E₀ ++ f x :: B := by
  rw [List.map_append, List.map_cons] at hnodup
  have hnotMem := (List.nodup_cons.1 (List.nodup_middle.1 hnodup)).1
  have hne : ∀ e ∈ E₀ ++ B, (if e.service = x.service then f e else e) = e := by
    intro e he
    refine if_neg fun hs => hnotMem ?_
    rw [← List.map_append, ← hs]
    exact List.mem_map_of_mem he
  rw [setEntry, List.map_append, List.map_cons, if_pos rfl,
    List.map_congr_left fun e he => hne e (List.mem_append_left _ he),
    List.map_congr_left fun e he => hne e (List.mem_append_right _ he), List.map_id', List.map_id']

theorem dependenciesOf_eq (hnodup : (E.map (·.service)).Nodup) {e : ServiceEntry ι τ}
    (he : e ∈ E) : dependenciesOf E e.service = e.dependencies := by
  rw [dependenciesOf, Support.find?_key hnodup he]
  rfl

variable [DecidableEq τ]

omit [DecidableEq ι] [DecidableEq τ] in
/-- The entry of `s` is new, and its direct dependencies are in it. -/
theorem Collecting.start (h : Inv S allServices E₀) (hs : s ∈ allServices)
    (hnew : ∀ e ∈ E₀, e.service ≠ s)
    (hreach : ∀ e ∈ E₀, e.collectingDependencies = true → S.Reaches allServices e.service s)
    {x : ServiceEntry ι τ} (hx : x.service = s) (hc : x.collectingDependencies = true)
    (hd : ∀ t, t ∈ x.dependencies ↔ t ∈ S.getServiceDependencies s) :
    Collecting S allServices E₀ s [] (E₀ ++ [x]) where
  inv := h.snoc hs hnew hreach hx hc
  entry := by
    refine ⟨x, [], rfl, hx, hc, fun t => ?_, nofun⟩
    rw [hd]
    simp
  done := nofun

omit [DecidableEq ι] [DecidableEq τ] in
/-- A service that depends on no other. -/
theorem Collecting.skip_all (h : Collecting S allServices E₀ s [] E)
    (hno : ∀ o, ¬ S.DependsOn allServices s o) (p : List ι) :
    Collecting S allServices E₀ s p E where
  inv := h.inv
  entry := by
    obtain ⟨x, B, hE, hx, hc, ht, hB⟩ := h.entry
    refine ⟨x, B, hE, hx, hc, fun t => (ht t).trans (or_congr_right ?_), hB⟩
    simp [hno]
  done o _ hd := absurd hd (hno o)

omit [DecidableEq ι] [DecidableEq τ] in
/-- The loop has looked at one more service, that `s` does not depend on. -/
theorem Collecting.skip {p : List ι} (h : Collecting S allServices E₀ s p E)
    (ho : ¬ S.DependsOn allServices s o) : Collecting S allServices E₀ s (p ++ [o]) E where
  inv := h.inv
  entry := by
    obtain ⟨x, B, hE, hx, hc, ht, hB⟩ := h.entry
    refine ⟨x, B, hE, hx, hc, fun t => (ht t).trans (or_congr_right ?_), hB⟩
    simp [or_and_right, exists_or, ho]
  done o' ho' hd := by
    rcases List.mem_append.1 ho' with ho' | ho'
    · exact h.done o' ho' hd
    · exact absurd (List.mem_singleton.1 ho' ▸ hd) ho

/-- The loop has visited one more service, and taken over its dependencies. -/
theorem Collecting.visit {p : List ι} (h : Collecting S allServices E₀ s p E)
    (ho : S.DependsOn allServices s o) (hv : Visited S allServices E o E') :
    Collecting S allServices E₀ s (p ++ [o])
      (setEntry E' s fun e => e.appendDependencies (dependenciesOf E' o)) := by
  obtain ⟨x, B, rfl, rfl, hc, ht, hB⟩ := h.entry
  obtain ⟨B', rfl, hB'⟩ := hv.new
  obtain ⟨e, he, rfl, hec⟩ := hv.done
  have hE : E₀ ++ x :: B ++ B' = E₀ ++ x :: (B ++ B') := by
    rw [List.append_assoc, List.cons_append]
  rw [hE] at he hv ⊢
  rw [dependenciesOf_eq hv.inv.nodup he, setEntry_middle hv.inv.nodup]
  have hinv := hv.inv.replace (y := x.appendDependencies e.dependencies) hc rfl
    fun hf => nomatch hc.symm.trans hf
  have hkeep : ∀ e' ∈ E₀ ++ x :: (B ++ B'), e'.collectingDependencies = false →
      e' ∈ E₀ ++ x.appendDependencies e.dependencies :: (B ++ B') := by
    intro e' he' hc'
    rcases List.mem_append.1 he' with he' | he'
    · exact List.mem_append_left _ he'
    · rcases List.mem_cons.1 he' with rfl | he'
      · cases hc.symm.trans hc'
      · exact List.mem_append_right _ (List.mem_cons_of_mem _ he')
  refine ⟨hinv, ⟨_, _, rfl, rfl, hc, fun t => ?_, fun e' he' => ?_⟩, fun o' ho' hd => ?_⟩
  · rw [ServiceEntry.appendDependencies, Finset.mem_union, ht, hv.inv.needs e he hec, or_assoc]
    refine or_congr_right ?_
    simp [or_and_right, exists_or, ho]
  · rcases List.mem_append.1 he' with he' | he'
    · exact hB e' he'
    · refine ⟨(hB' e' he').1, ?_⟩
      rcases (hB' e' he').2 with hs | hr
      · exact hs ▸ .single ho
      · exact .head ho hr
  · rcases List.mem_append.1 ho' with ho' | ho'
    · obtain ⟨e', he', hs', hc'⟩ := h.done o' ho' hd
      refine ⟨e', hkeep e' ?_ hc', hs', hc'⟩
      rw [← hE]
      exact List.mem_append_left _ he'
    · rw [List.mem_singleton.1 ho']
      exact ⟨e, hkeep e he hec, rfl, hec⟩

omit [DecidableEq τ] in
/-- The dependencies of `s` are collected. -/
theorem Collecting.finish (h : Collecting S allServices E₀ s allServices E) :
    Visited S allServices E₀ s
      (setEntry E s fun e => { e with collectingDependencies := false }) := by
  obtain ⟨x, B, rfl, rfl, hc, ht, hB⟩ := h.entry
  rw [setEntry_middle h.inv.nodup]
  have hclosed : ∀ o, S.DependsOn allServices x.service o →
      ∃ e ∈ E₀ ++ x :: B, e.service = o ∧ e.collectingDependencies = false := fun o ho =>
    h.done o ho.1 ho
  have hacyclic : ¬ S.Reaches allServices x.service x.service := by
    intro hr
    obtain ⟨o, ho, hos⟩ := TransGen.head'_iff.1 hr
    obtain ⟨e, he, rfl, hec⟩ := hclosed o ho
    rcases reflTransGen_iff_eq_or_transGen.1 hos with hs | hos
    · exact ho.2.1 hs.symm
    · obtain ⟨e', he', hs', hc'⟩ := h.inv.reaches he hec hos
      rw [h.inv.eq_of_service he' (List.mem_append_right _ List.mem_cons_self) hs'] at hc'
      cases hc.symm.trans hc'
  refine ⟨h.inv.replace hc rfl fun _ => ⟨fun t => ?_, hclosed, hacyclic⟩, ⟨_, rfl, ?_⟩, ?_,
    fun _ => ⟨_, _, rfl, rfl⟩⟩
  · rw [ht, needs_iff]
    refine or_congr_right (exists_congr fun o => ?_)
    exact ⟨fun ho => ho.2, fun ho => ⟨ho.1.1, ho⟩⟩
  · intro e he
    rcases List.mem_cons.1 he with rfl | he
    · exact ⟨rfl, Or.inl rfl⟩
    · exact ⟨(hB e he).1, Or.inr (hB e he).2⟩
  · exact ⟨_, List.mem_append_right _ List.mem_cons_self, rfl, rfl⟩

/-- A call for `s` that may nest `fuel` deep comes to its end, or meets a cycle. -/
def Walks (S : Services ι τ) (allServices : List ι)
    (visit : List (ServiceEntry ι τ) → ι → Except Failure (List (ServiceEntry ι τ)))
    (fuel : Nat) : Prop :=
  ∀ {E : List (ServiceEntry ι τ)} {s : ι}, allServices.length < fuel + E.length →
    Inv S allServices E → s ∈ allServices →
    (∀ e ∈ E, e.collectingDependencies = true → S.Reaches allServices e.service s) →
    (∃ E', visit E s = .ok E' ∧ Visited S allServices E s E') ∨
      visit E s = .error .cyclic ∧ ∃ c, S.Reaches allServices c c

/-- The loop over the services, from where `p` have been looked at to its end. -/
theorem loop_spec {visit : List (ServiceEntry ι τ) → ι → Except Failure (List (ServiceEntry ι τ))}
    {fuel : Nat} (hvisit : Walks S allServices visit fuel) {p q : List ι}
    (hsplit : allServices = p ++ q) (hfuel : allServices.length ≤ fuel + E₀.length)
    (hreach : ∀ e ∈ E₀, e.collectingDependencies = true → S.Reaches allServices e.service s)
    (h : Collecting S allServices E₀ s p E) :
    (∃ E', q.foldlM (appendFrom S visit s) E = .ok E' ∧
      Collecting S allServices E₀ s allServices E') ∨
    q.foldlM (appendFrom S visit s) E = .error .cyclic ∧ ∃ c, S.Reaches allServices c c := by
  induction q generalizing p E with
  | nil =>
      rw [List.append_nil] at hsplit
      exact Or.inl ⟨E, rfl, hsplit ▸ h⟩
  | cons o q ih =>
      have hsplit' : allServices = (p ++ [o]) ++ q := by rw [hsplit, List.append_assoc]; rfl
      have ho : o ∈ allServices := by
        rw [hsplit]
        exact List.mem_append_right _ List.mem_cons_self
      rw [List.foldlM_cons]
      by_cases hd : S.DependsOn allServices s o
      · -- the call for `o`: all that is collecting leads to `s`, and so to `o`
        obtain ⟨x, B, hE, hx, hc, -, hB⟩ := h.entry
        have hlen : allServices.length < fuel + E.length := by
          rw [hE, List.length_append, List.length_cons]
          omega
        have hreach' : ∀ e ∈ E, e.collectingDependencies = true →
            S.Reaches allServices e.service o := by
          intro e he hce
          rw [hE] at he
          rcases List.mem_append.1 he with he | he
          · exact (hreach e he hce).tail hd
          · rcases List.mem_cons.1 he with rfl | he
            · exact hx ▸ .single hd
            · cases hce.symm.trans (hB e he).1
        have hstep : appendFrom S visit s E o = (visit E o).bind fun E' =>
            .ok (setEntry E' s fun e => e.appendDependencies (dependenciesOf E' o)) := by
          rw [appendFrom, if_neg hd.2.1, if_pos hd.2.2]
          rfl
        rw [hstep]
        rcases hvisit hlen h.inv ho hreach' with ⟨E', hE', hv⟩ | ⟨herr, hcycle⟩
        · rw [hE']
          exact ih hsplit' (h.visit hd hv)
        · rw [herr]
          exact Or.inr ⟨rfl, hcycle⟩
      · have hstep : appendFrom S visit s E o = .ok E := by
          rw [appendFrom]
          split
          · rfl
          · rename_i hne
            exact if_neg fun hdep => hd ⟨ho, hne, hdep⟩
        rw [hstep]
        exact ih hsplit' (h.skip hd)

/-- **The walk.** -/
theorem getServiceEntry_spec (fuel : Nat) :
    Walks S allServices (getServiceEntry S allServices fuel) fuel := by
  induction fuel with
  | zero =>
      intro E s hlen h
      have := h.length_le
      omega
  | succ fuel ih =>
      intro E s hlen h hs hreach
      rw [getServiceEntry]
      cases hf : E.find? fun e => e.service = s with
      | some e =>
          obtain ⟨he, hes⟩ := Support.find?_key_some hf
          dsimp only
          cases hc : e.collectingDependencies with
          | true => exact Or.inr ⟨rfl, s, hes ▸ hreach e he hc⟩
          | false =>
              exact Or.inl ⟨E, rfl, h, ⟨[], (List.append_nil E).symm, nofun⟩, ⟨e, he, hes, hc⟩,
                fun hnew => absurd hes (hnew e he)⟩
      | none =>
          have hnew : ∀ e ∈ E, e.service ≠ s := by
            intro e he hes
            exact List.find?_eq_none.1 hf e he (by simpa using hes)
          dsimp only
          by_cases hd : S.getServiceDependencies s = []
          · rw [if_pos hd]
            have hstart : Collecting S allServices E s [] (E ++ [{ service := s }]) :=
              .start h hs hnew hreach rfl rfl fun t => by rw [hd]; simp
            have hno : ∀ o, ¬ S.DependsOn allServices s o := fun o ho => by
              have hdep := ho.2.2
              rw [hd] at hdep
              cases hdep
            exact Or.inl ⟨_, rfl, (hstart.skip_all hno allServices).finish⟩
          · rw [if_neg hd]
            have hstart : Collecting S allServices E s [] (E ++ [ServiceEntry.appendDependencies
                { service := s } (S.getServiceDependencies s).toFinset]) :=
              .start h hs hnew hreach rfl rfl fun t => by simp [ServiceEntry.appendDependencies]
            rcases loop_spec ih rfl (by omega) hreach hstart with ⟨E', hE', hv⟩ | ⟨herr, hcycle⟩
            · rw [hE']
              exact Or.inl ⟨_, rfl, hv.finish⟩
            · rw [herr]
              exact Or.inr ⟨rfl, hcycle⟩

end

end MyEngine.Service
