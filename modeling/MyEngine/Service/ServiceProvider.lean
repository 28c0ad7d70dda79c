import Mathlib.Data.List.Chain
import MyEngine.Support.Replace
import MyEngine.Support.Runs
import MyEngine.Support.Tally
import MyEngine.Support.WaitGraph

/-!
# Service — ServiceProvider

`findInternal` and `findAllInternal` of `service_provider_impl.cpp`, with the `getApi` of the lazy
accessors of `service_provider.h`: a service is constructed under its accessor's lock, and its
constructor looks up others.

* `Lookup`: a lookup by where it is; a thread is the stack of its lookups.
* `advance`: a lookup goes on to its next lock, or behind the section it is in.
* `lookups_sound`: every service is constructed once, every lookup gives the first one registered,
  and no threads wait in a cycle.
-/

namespace MyEngine.Service.ServiceProvider

open Relation Runs

/-! ### The code -/

/-- An accessor by the interfaces it has, and if it creates its service when it is looked up. -/
structure ServiceAccessor (τ : Type) where
  hasApi : τ → Bool
  lazy : Bool

/-- A constructed service: its accessor, and how many were constructed before. -/
structure Instance where
  accessor : ℕ
  serial : ℕ
  deriving DecidableEq, Repr

inductive GetApiMode where
  | allowLazyCreation
  | doNotCreate
  deriving DecidableEq, Repr

inductive Query where
  | find
  | findAll (getApiMode : GetApiMode)
  deriving DecidableEq, Repr

/-- Where a lookup is; `rest` are the accessors it has still to come to. -/
inductive Place where
  /-- Before the shared lock of `m_mutex`. -/
  | entering
  /-- Under it. -/
  | searching
  /-- Before `getApi` of the next accessor. -/
  | visiting (rest : List ℕ)
  /-- In `getApi`, before the accessor's lock. -/
  | locking (accessor : ℕ) (rest : List ℕ)
  /-- Under it. -/
  | locked (accessor : ℕ) (rest : List ℕ)
  /-- In the constructor, under the accessor's lock. -/
  | creating (api : Instance) (rest : List ℕ)
  /-- Before the exclusive lock of `m_mutex`. -/
  | storing (api : Instance)
  /-- Under it. -/
  | emplacing (api : Instance)
  deriving DecidableEq, Repr

/-- A lookup that goes on, with what it has found. -/
structure Lookup (τ : Type) where
  query : Query
  type : τ
  place : Place := .entering
  found : List Instance := []
  deriving DecidableEq, Repr

/-- A lookup that has returned. -/
structure Result (τ : Type) where
  query : Query
  type : τ
  found : List Instance
  deriving DecidableEq, Repr

structure State (τ : Type) where
  m_instances : τ → Option Instance := fun _ => none
  /-- `m_instance` of each accessor. -/
  m_instance : ℕ → Option Instance
  /-- The accessors whose constructors have been called, in this order. -/
  created : List ℕ := []
  threads : List (List (Lookup τ))
  results : List (Result τ) := []

/-- `call` is a lookup by code of the thread's own or by the constructor it is in. -/
inductive Action (τ : Type) where
  | call (thread : ℕ) (query : Query) (type : τ)
  | advance (thread : ℕ)

/-- The lookup holds the lock of `m_mutex`, shared or not. -/
def Place.reads : Place → Bool
  | .searching => true
  | _ => false

def Place.writes : Place → Bool
  | .emplacing _ => true
  | _ => false

/-- The lookup holds the lock of the accessor. -/
def Place.holds (accessor : ℕ) : Place → Bool
  | .locked a _     => a = accessor
  | .creating api _ => api.accessor = accessor
  | _               => false

/-- The service whose constructor the lookup is in. -/
def Place.creates : Place → Option ℕ
  | .creating api _ => some api.accessor
  | _               => none

section

variable {τ : Type} [DecidableEq τ] (accessors : List (ServiceAccessor τ))

/-- `std::find_if` in `findInternal`. -/
def first (type : τ) : Option ℕ := accessors.findIdx? fun accessor => accessor.hasApi type

/-- The loop over `m_accessors` in `findAllInternal`. -/
def providers (type : τ) : List ℕ :=
  (List.range accessors.length).filter fun a => (accessors[a]?).any fun accessor =>
    accessor.hasApi type

/-- The accessors that a lookup comes to. -/
def targets (query : Query) (type : τ) : List ℕ :=
  match query with
  | .find      => (first accessors type).toList
  | .findAll _ => providers accessors type

def isLazy (a : ℕ) : Bool := (accessors[a]?).any fun accessor => accessor.lazy

namespace State

/-- A lookup of this kind is in progress. -/
def anyLookup (s : State τ) (p : Place → Bool) : Bool :=
  s.threads.any fun stack => stack.any fun lookup => p lookup.place

def setThread (s : State τ) (thread : ℕ) (stack : List (Lookup τ)) : State τ :=
  { s with threads := s.threads.set thread stack }

/-- The lookup returns to the one, or to the code, that has called it. -/
def leave (s : State τ) (thread : ℕ) (rest : List (Lookup τ)) (lookup : Lookup τ)
    (found : List Instance) : State τ :=
  { s.setThread thread rest with results := s.results ++ [⟨lookup.query, lookup.type, found⟩] }

/-- The next access of a lookup.  Whether the accessor has the interface has been asked before it
is visited. -/
def advance (s : State τ) (thread : ℕ) (lookup : Lookup τ) (rest : List (Lookup τ)) :
    Option (State τ) :=
  let goOn (s : State τ) (place : Place) (found : List Instance) : Option (State τ) :=
    some (s.setThread thread ({ lookup with place := place, found := found } :: rest))
  let found := lookup.found
  match lookup.place with
  | .entering => if s.anyLookup Place.writes then none else goOn s .searching found
  | .searching =>
      match lookup.query, s.m_instances lookup.type with
      | .find, some api => some (s.leave thread rest lookup [api])
      | _, _ => goOn s (.visiting (targets accessors lookup.query lookup.type)) found
  | .visiting (a :: next) =>
      if isLazy accessors a then goOn s (.locking a next) found
      else goOn s (.visiting next) (found ++ [⟨a, 0⟩])
  | .visiting [] =>
      match lookup.query, found with
      | .find, api :: _ => goOn s (.storing api) found
      | _, _ => some (s.leave thread rest lookup found)
  | .locking a next =>
      if s.anyLookup (Place.holds a) then none else goOn s (.locked a next) found
  | .locked a next =>
      match s.m_instance a with
      | some api => goOn s (.visiting next) (found ++ [api])
      | none =>
          if lookup.query = .findAll .doNotCreate then goOn s (.visiting next) found
          else goOn { s with created := s.created ++ [a] }
            (.creating ⟨a, s.created.length⟩ next) found
  | .creating api next =>
      let m_instance := fun a => if a = api.accessor then some api else s.m_instance a
      goOn { s with m_instance := m_instance } (.visiting next) (found ++ [api])
  | .storing api =>
      if s.anyLookup Place.reads || s.anyLookup Place.writes then none
      else goOn s (.emplacing api) found
  | .emplacing api =>
      let m_instances := fun type =>
        if type = lookup.type then some ((s.m_instances type).getD api) else s.m_instances type
      some ({ s with m_instances := m_instances }.leave thread rest lookup [api])

end State

/-- A lookup is called where nothing is in progress, or in a constructor. -/
def step (s : State τ) : Action τ → Option (State τ)
  | .call thread query type =>
      match s.threads[thread]? with
      | some [] => some (s.setThread thread [{ query := query, type := type }])
      | some (lookup :: rest) =>
          match lookup.place.creates with
          | some _ =>
              some (s.setThread thread ({ query := query, type := type } :: lookup :: rest))
          | none => none
      | none => none
  | .advance thread =>
      match s.threads[thread]? with
      | some (lookup :: rest) => s.advance accessors thread lookup rest
      | _ => none

/-- The services that exist are there, the lazy ones are not; `n` threads. -/
def State.create (n : ℕ) : State τ where
  m_instance a := if a < accessors.length ∧ isLazy accessors a = false then some ⟨a, 0⟩ else none
  threads := List.replicate n []

/-- A constructor looks up only what its service depends on. -/
def Along (depends : ℕ → ℕ → Prop) (s : State τ) : Action τ → Prop
  | .call thread query type =>
      ∀ stack ∈ s.threads[thread]?, ∀ lookup ∈ stack.head?, ∀ a ∈ lookup.place.creates,
        ∀ b ∈ targets accessors query type, depends a b
  | .advance _ => True

instance (depends : ℕ → ℕ → Prop) [∀ a b, Decidable (depends a b)] (s : State τ) :
    ∀ a, Decidable (Along accessors depends s a)
  | .call thread query type =>
      inferInstanceAs (Decidable (∀ stack ∈ s.threads[thread]?, ∀ lookup ∈ stack.head?,
        ∀ a ∈ lookup.place.creates, ∀ b ∈ targets accessors query type, depends a b))
  | .advance _ => inferInstanceAs (Decidable True)

end

/-! ### What holds in every run -/

section

variable {τ : Type} (accessors : List (ServiceAccessor τ)) (depends : ℕ → ℕ → Prop)

/-- The accessors that a lookup has still to come to. -/
def Place.left (all : List ℕ) : Place → List ℕ
  | .entering | .searching     => all
  | .visiting rest             => rest
  | .locking a rest            => a :: rest
  | .locked a rest             => a :: rest
  | .creating api rest         => api.accessor :: rest
  | .storing _ | .emplacing _  => []

/-- The instance that a lookup is about to store. -/
def Place.stores : Place → Option Instance
  | .storing api | .emplacing api => some api
  | _ => none

namespace State

/-- The accessor has this instance. -/
def Known (s : State τ) (api : Instance) : Prop := s.m_instance api.accessor = some api

/-- What a lookup has found, of the accessors it has been to. -/
def Found (query : Query) (seen : List ℕ) (found : List Instance) : Prop :=
  (found.map Instance.accessor).Sublist seen ∧
    (query ≠ .findAll .doNotCreate → found.map Instance.accessor = seen)

structure Fits (s : State τ) (lookup : Lookup τ) : Prop where
  known : ∀ api ∈ lookup.found, s.Known api
  found : ∃ seen, targets accessors lookup.query lookup.type =
      seen ++ lookup.place.left (targets accessors lookup.query lookup.type) ∧
    Found lookup.query seen lookup.found
  stores : ∀ api ∈ lookup.place.stores, lookup.query = .find ∧ lookup.found = [api]

/-- The lookup below is in the constructor that the one above is called from. -/
def Below (lookup below : Lookup τ) : Prop :=
  ∃ c ∈ below.place.creates, ∀ a ∈ targets accessors lookup.query lookup.type, depends c a

/-- How many lookups of a stack hold the accessor's lock, and how many are in its constructor. -/
abbrev holdsOf (stack : List (Lookup τ)) (a : ℕ) : ℕ :=
  tally (fun lookup => (lookup.place.holds a).toNat) stack

abbrev createsOf (stack : List (Lookup τ)) (a : ℕ) : ℕ :=
  tally (fun lookup => if lookup.place.creates = some a then 1 else 0) stack

/-- How many lookups of all threads. -/
def holders (threads : List (List (Lookup τ))) (a : ℕ) : ℕ :=
  tally (fun stack => holdsOf stack a) threads

def creators (threads : List (List (Lookup τ))) (a : ℕ) : ℕ :=
  tally (fun stack => createsOf stack a) threads

structure Inv (s : State τ) : Prop where
  mutex : ∀ a, holders s.threads a ≤ 1
  own : ∀ a api, s.m_instance a = some api → api.accessor = a
  eager : ∀ a < accessors.length, isLazy accessors a = false → s.Known ⟨a, 0⟩
  creating : ∀ a, s.m_instance a ≠ none → creators s.threads a = 0
  created : s.created.Nodup ∧
    ∀ a ∈ s.created, s.m_instance a ≠ none ∨ creators s.threads a ≠ 0
  cache : ∀ type api, s.m_instances type = some api →
    s.Known api ∧ first accessors type = some api.accessor
  fits : ∀ stack ∈ s.threads, ∀ lookup ∈ stack, s.Fits accessors lookup
  chains : ∀ stack ∈ s.threads, stack.IsChain (Below accessors depends)
  results : ∀ result ∈ s.results, (∀ api ∈ result.found, s.Known api) ∧
    Found result.query (targets accessors result.query result.type) result.found

variable {accessors depends} {s s' : State τ} {t a : ℕ} {lookup : Lookup τ}
  {rest : List (Lookup τ)} {api : Instance}

/-- One lookup holds the lock, of one that does so or creates. -/
theorem creators_le (threads : List (List (Lookup τ))) (a : ℕ) :
    creators threads a ≤ holders threads a := by
  refine tally_le_tally fun stack _ => tally_le_tally fun lookup _ => ?_
  split
  next h =>
    cases hp : lookup.place <;> rw [hp] at h <;> cases h
    simp [Place.holds]
  next => exact Nat.zero_le _

/-- What an instance is stays so while others come. -/
theorem Known.mono (h : s.Known api) (hm : ∀ a, s.m_instance a ≠ none →
    s'.m_instance a = s.m_instance a) : s'.Known api :=
  (hm _ (by rw [h]; nofun)).trans h

theorem Fits.mono (h : s.Fits accessors lookup) (hm : ∀ a, s.m_instance a ≠ none →
    s'.m_instance a = s.m_instance a) : s'.Fits accessors lookup :=
  { h with known := fun api hmem => (h.known api hmem).mono hm }

variable {stack stack' : List (Lookup τ)}

namespace Fits

/-- The lookup goes on where it has the same accessors before it. -/
theorem place (h : s.Fits accessors lookup) {place : Place}
    (hleft : place.left (targets accessors lookup.query lookup.type) =
      lookup.place.left (targets accessors lookup.query lookup.type))
    (hstores : ∀ api ∈ place.stores, lookup.query = .find ∧ lookup.found = [api]) :
    s.Fits accessors { lookup with place := place } where
  known := h.known
  found := by
    obtain ⟨seen, htargets, hfound⟩ := h.found
    exact ⟨seen, by rw [hleft]; exact htargets, hfound⟩
  stores := hstores

/-- The next accessor gives its instance. -/
theorem visit (h : s.Fits accessors lookup) {next : List ℕ}
    (hleft : lookup.place.left (targets accessors lookup.query lookup.type) =
      api.accessor :: next) (hk : s.Known api) :
    s.Fits accessors
      { lookup with place := .visiting next, found := lookup.found ++ [api] } where
  known other hmem := by
    rcases List.mem_append.1 hmem with hmem | hmem
    · exact h.known other hmem
    · rwa [List.mem_singleton.1 hmem]
  found := by
    obtain ⟨seen, htargets, hsub, hall⟩ := h.found
    refine ⟨seen ++ [api.accessor], ?_, ?_, fun hq => ?_⟩
    · rw [htargets, hleft, List.append_assoc]
      rfl
    · rw [List.map_append]
      exact hsub.append_right _
    · rw [List.map_append, hall hq]
      rfl
  stores := nofun

/-- The next accessor gives nothing, as it may not create its service. -/
theorem pass (h : s.Fits accessors lookup) {a : ℕ} {next : List ℕ}
    (hleft : lookup.place.left (targets accessors lookup.query lookup.type) = a :: next)
    (hq : lookup.query = .findAll .doNotCreate) :
    s.Fits accessors { lookup with place := .visiting next } where
  known := h.known
  found := by
    obtain ⟨seen, htargets, hsub, -⟩ := h.found
    refine ⟨seen ++ [a], ?_, hsub.trans (List.sublist_append_left _ _), fun hne => absurd hq hne⟩
    rw [htargets, hleft, List.append_assoc]
    rfl
  stores := nofun

theorem mem_targets (h : s.Fits accessors lookup)
    (ha : a ∈ lookup.place.left (targets accessors lookup.query lookup.type)) :
    a ∈ targets accessors lookup.query lookup.type := by
  obtain ⟨seen, htargets, -⟩ := h.found
  rw [htargets]
  exact List.mem_append_right _ ha

/-- A lookup that has come to the end. -/
theorem done (h : s.Fits accessors lookup)
    (hleft : lookup.place.left (targets accessors lookup.query lookup.type) = []) :
    Found lookup.query (targets accessors lookup.query lookup.type) lookup.found := by
  obtain ⟨seen, htargets, hfound⟩ := h.found
  rw [hleft, List.append_nil] at htargets
  rwa [htargets]

end Fits

theorem left_of_creates {place : Place} {all : List ℕ} (h : place.creates = some a) :
    a ∈ place.left all := by
  cases place with
  | creating api rest =>
      obtain rfl := Option.some.inj h
      exact List.mem_cons_self
  | _ => cases h

/-- What a lookup is called for is what its caller's service depends on. -/
theorem isChain_replace {lookup' : Lookup τ}
    (h : (lookup :: rest).IsChain (Below accessors depends))
    (hq : lookup'.query = lookup.query) (ht : lookup'.type = lookup.type) :
    (lookup' :: rest).IsChain (Below accessors depends) := by
  cases rest with
  | nil => exact List.IsChain.singleton _
  | cons below rest =>
      obtain ⟨⟨c, hc, hdep⟩, hrest⟩ := List.isChain_cons_cons.1 h
      refine List.isChain_cons_cons.2 ⟨⟨c, hc, ?_⟩, hrest⟩
      rwa [hq, ht]

theorem holders_set (ht : s.threads[t]? = some stack) (stack' : List (Lookup τ)) (a : ℕ) :
    holders (s.threads.set t stack') a + holdsOf stack a =
      holders s.threads a + holdsOf stack' a :=
  tally_set (fun stack => holdsOf stack a) ht stack'

theorem creators_set (ht : s.threads[t]? = some stack) (stack' : List (Lookup τ)) (a : ℕ) :
    creators (s.threads.set t stack') a + createsOf stack a =
      creators s.threads a + createsOf stack' a :=
  tally_set (fun stack => createsOf stack a) ht stack'

/-- The top lookup of a thread is at another place. -/
theorem holders_top (ht : s.threads[t]? = some (lookup :: rest)) (lookup' : Lookup τ) (a : ℕ) :
    holders (s.threads.set t (lookup' :: rest)) a + (lookup.place.holds a).toNat =
      holders s.threads a + (lookup'.place.holds a).toNat := by
  have hset := holders_set ht (lookup' :: rest) a
  rw [holdsOf, holdsOf, tally_cons, tally_cons] at hset
  omega

theorem creators_top (ht : s.threads[t]? = some (lookup :: rest)) (lookup' : Lookup τ) (a : ℕ) :
    creators (s.threads.set t (lookup' :: rest)) a +
        (if lookup.place.creates = some a then 1 else 0) =
      creators s.threads a + if lookup'.place.creates = some a then 1 else 0 := by
  have hset := creators_set ht (lookup' :: rest) a
  rw [createsOf, createsOf, tally_cons, tally_cons] at hset
  omega

theorem creators_top_eq (ht : s.threads[t]? = some (lookup :: rest)) {lookup' : Lookup τ}
    (h : lookup'.place.creates = some a ↔ lookup.place.creates = some a) :
    creators (s.threads.set t (lookup' :: rest)) a = creators s.threads a := by
  have htop := creators_top ht lookup' a
  simp only [h] at htop
  omega

namespace Inv

/-- A thread's stack changes, and the instances there are stay. -/
theorem of (h : Inv accessors depends s) (ht : s.threads[t]? = some stack)
    (hthreads : s'.threads = s.threads.set t stack')
    (hmutex : ∀ a, holdsOf stack' a ≤ holdsOf stack a ∨
      holders s.threads a = 0 ∧ holdsOf stack' a ≤ 1)
    (hm : ∀ a, s.m_instance a ≠ none → s'.m_instance a = s.m_instance a)
    (hown : ∀ a api, s'.m_instance a = some api → api.accessor = a)
    (hcreating : ∀ a, s'.m_instance a ≠ none → creators s'.threads a = 0)
    (hcreated : s'.created.Nodup ∧
      ∀ a ∈ s'.created, s'.m_instance a ≠ none ∨ creators s'.threads a ≠ 0)
    (hcache : ∀ type api, s'.m_instances type = some api →
      s'.Known api ∧ first accessors type = some api.accessor)
    (hfits : ∀ lookup ∈ stack', s'.Fits accessors lookup)
    (hchain : stack'.IsChain (Below accessors depends))
    (hresults : ∀ result ∈ s'.results, (∀ api ∈ result.found, s'.Known api) ∧
      Found result.query (targets accessors result.query result.type) result.found) :
    Inv accessors depends s' where
  mutex a := by
    have hset := holders_set ht stack' a
    have hle := h.mutex a
    rw [hthreads]
    rcases hmutex a with hm | ⟨hzero, hone⟩ <;> omega
  own := hown
  eager a ha hl := (h.eager a ha hl).mono hm
  creating := hcreating
  created := hcreated
  cache := hcache
  fits := by
    rw [hthreads]
    exact forall_mem_set (fun stack hs lookup hl => (h.fits stack hs lookup hl).mono hm) hfits
  chains := by
    rw [hthreads]
    exact forall_mem_set h.chains hchain
  results := hresults

/-- A step that creates nothing. -/
theorem quiet (h : Inv accessors depends s) (ht : s.threads[t]? = some stack)
    (hthreads : s'.threads = s.threads.set t stack') (hi : s'.m_instance = s.m_instance)
    (hc : s'.created = s.created) (hcreates : ∀ a, createsOf stack' a = createsOf stack a)
    (hmutex : ∀ a, holdsOf stack' a ≤ holdsOf stack a ∨
      holders s.threads a = 0 ∧ holdsOf stack' a ≤ 1)
    (hcache : ∀ type api, s'.m_instances type = some api →
      s.Known api ∧ first accessors type = some api.accessor)
    (hfits : ∀ lookup ∈ stack', s.Fits accessors lookup)
    (hchain : stack'.IsChain (Below accessors depends))
    (hresults : ∀ result ∈ s'.results, (∀ api ∈ result.found, s.Known api) ∧
      Found result.query (targets accessors result.query result.type) result.found) :
    Inv accessors depends s' := by
  have hknown : ∀ {api}, s.Known api → s'.Known api := fun hk => hk.mono fun a _ => by rw [hi]
  have hcreators : ∀ a, creators s'.threads a = creators s.threads a := fun a => by
    have hset := creators_set ht stack' a
    have hsame := hcreates a
    rw [hthreads]
    omega
  refine h.of ht hthreads hmutex (fun a _ => by rw [hi]) (by rw [hi]; exact h.own) ?_ ?_ ?_ ?_
    hchain ?_
  · intro a ha
    rw [hcreators]
    exact h.creating a (by rwa [hi] at ha)
  · rw [hc]
    refine ⟨h.created.1, fun a ha => ?_⟩
    rw [hi, hcreators]
    exact h.created.2 a ha
  · intro type api hapi
    obtain ⟨hk, hf⟩ := hcache type api hapi
    exact ⟨hknown hk, hf⟩
  · exact fun lookup hl => (hfits lookup hl).mono fun a _ => by rw [hi]
  · intro result hr
    obtain ⟨hk, hf⟩ := hresults result hr
    exact ⟨fun api ha => hknown (hk api ha), hf⟩

/-- A lookup goes on and creates nothing. -/
theorem goOn (h : Inv accessors depends s) (ht : s.threads[t]? = some (lookup :: rest))
    {place : Place} {found : List Instance} (hold : lookup.place.creates = none)
    (hnew : place.creates = none)
    (hmutex : ∀ a, place.holds a = true → lookup.place.holds a = true ∨ holders s.threads a = 0)
    (hfits : s.Fits accessors { lookup with place := place, found := found }) :
    Inv accessors depends
      (s.setThread t ({ lookup with place := place, found := found } :: rest)) := by
  have hmem := List.mem_of_getElem? ht
  refine h.quiet ht rfl rfl rfl (fun a => ?_) (fun a => ?_) h.cache ?_ ?_ h.results
  · simp only [createsOf, tally_cons, hold, hnew]
  · have hle : holdsOf (lookup :: rest) a ≤ holders s.threads a := le_tally _ ht
    simp only [holdsOf, tally_cons] at hle ⊢
    cases hp : place.holds a with
    | false => exact .inl (by rw [Bool.toNat_false]; omega)
    | true =>
        rcases hmutex a hp with hl | hnone
        · exact .inl (by rw [hl])
        · exact .inr ⟨hnone, by rw [Bool.toNat_true]; omega⟩
  · rintro l hl
    rcases List.mem_cons.1 hl with rfl | hl
    · exact hfits
    · exact h.fits _ hmem l (List.mem_cons_of_mem _ hl)
  · exact isChain_replace (h.chains _ hmem) rfl rfl

/-- A lookup returns; what it has stored may be new. -/
theorem leave (h : Inv accessors depends s) (ht : s.threads[t]? = some (lookup :: rest))
    {found : List Instance} {m_instances : τ → Option Instance}
    (hold : lookup.place.creates = none)
    (hcache : ∀ type api, m_instances type = some api →
      s.Known api ∧ first accessors type = some api.accessor)
    (hknown : ∀ api ∈ found, s.Known api)
    (hfound : Found lookup.query (targets accessors lookup.query lookup.type) found) :
    Inv accessors depends
      ({ s with m_instances := m_instances }.leave t rest lookup found) := by
  have hmem := List.mem_of_getElem? ht
  refine h.quiet ht rfl rfl rfl (fun a => ?_) (fun a => ?_) hcache ?_ ?_ ?_
  · simp [createsOf, hold]
  · rw [holdsOf, holdsOf, tally_cons]
    exact .inl (Nat.le_add_left _ _)
  · exact fun l hl => h.fits _ hmem l (List.mem_cons_of_mem _ hl)
  · exact (h.chains _ hmem).tail
  · intro result hr
    rcases List.mem_append.1 hr with hr | hr
    · exact h.results result hr
    · obtain rfl := List.mem_singleton.1 hr
      exact ⟨hknown, hfound⟩

/-- When the accessor's lock is given back no one is in its constructor. -/
theorem creators_eq_zero (h : Inv accessors depends s) (ht : s.threads[t]? = some (lookup :: rest))
    (hp : lookup.place.holds a = true) {lookup' : Lookup τ} (hp' : lookup'.place.holds a = false) :
    creators (s.threads.set t (lookup' :: rest)) a = 0 := by
  have hle := creators_le (s.threads.set t (lookup' :: rest)) a
  have htop := holders_top ht lookup' a
  have hone := h.mutex a
  rw [hp, hp', Bool.toNat_true, Bool.toNat_false] at htop
  omega

/-- The constructor is called: no one is in it, and it has not been called before. -/
theorem creates (h : Inv accessors depends s) (ht : s.threads[t]? = some (lookup :: rest))
    {a : ℕ} {next : List ℕ} (hp : lookup.place = .locked a next) (hnone : s.m_instance a = none)
    {n : ℕ} : Inv accessors depends
      ({ s with created := s.created ++ [a] }.setThread t
        ({ lookup with place := .creating ⟨a, n⟩ next } :: rest)) := by
  have hmem := List.mem_of_getElem? ht
  have hfits := h.fits _ hmem lookup List.mem_cons_self
  have hnot : lookup.place.creates = none := by rw [hp]; rfl
  have hold : ∀ b, lookup.place.creates ≠ some b := fun b => by
    rw [hnot]
    exact nofun
  have hzero : creators s.threads a = 0 := by
    have hholds : lookup.place.holds a = true := by rw [hp]; exact decide_eq_true rfl
    have hfree : ({ lookup with place := .entering } : Lookup τ).place.holds a = false := rfl
    have hidle := h.creators_eq_zero ht hholds hfree
    rwa [creators_top_eq ht ⟨fun hc => (by cases hc), fun hc => absurd hc (hold a)⟩] at hidle
  have htop := creators_top ht { lookup with place := .creating ⟨a, n⟩ next }
  have hne : ∀ b ≠ a, creators (s.threads.set t
      ({ lookup with place := .creating ⟨a, n⟩ next } :: rest)) b = creators s.threads b :=
    fun b hb => creators_top_eq ht ⟨fun hc => absurd (Option.some.inj hc).symm hb,
      fun hc => absurd hc (hold b)⟩
  have hself : creators (s.threads.set t
      ({ lookup with place := .creating ⟨a, n⟩ next } :: rest)) a ≠ 0 := by
    have htop := htop a
    rw [if_neg (hold a)] at htop
    change _ = _ + (if some a = some a then 1 else 0) at htop
    rw [if_pos rfl] at htop
    omega
  have hnotin : a ∉ s.created := fun hmem =>
    (h.created.2 a hmem).elim (fun hsome => hsome hnone) fun hcre => hcre hzero
  refine h.of ht rfl (fun b => .inl ?_) (fun _ _ => rfl) h.own (fun b hb => ?_) ⟨?_, fun b hb => ?_⟩
    h.cache ?_ ?_ h.results
  · simp [holdsOf, hp, Place.holds]
  · have hba : b ≠ a := by
      rintro rfl
      exact hb hnone
    exact (hne b hba).trans (h.creating b hb)
  · refine List.nodup_append.2 ⟨h.created.1, List.nodup_singleton a, fun b hb c hc hbc => ?_⟩
    exact hnotin (by rwa [← List.mem_singleton.1 hc, ← hbc])
  · by_cases hba : b = a
    · subst hba
      exact .inr hself
    · rcases List.mem_append.1 hb with hb | hb
      · refine (h.created.2 b hb).imp_right fun hcre => ?_
        rwa [← hne b hba] at hcre
      · exact absurd (List.mem_singleton.1 hb) hba
  · intro l hl
    refine Fits.mono (s := s) ?_ fun _ _ => rfl
    rcases List.mem_cons.1 hl with rfl | hl
    · refine hfits.place ?_ ?_
      · rw [hp]
        rfl
      · exact nofun
    · exact h.fits _ hmem l (List.mem_cons_of_mem _ hl)
  · exact isChain_replace (h.chains _ hmem) rfl rfl

/-- The constructor has returned. -/
theorem constructed (h : Inv accessors depends s) (ht : s.threads[t]? = some (lookup :: rest))
    {api : Instance} {next : List ℕ} (hp : lookup.place = .creating api next) :
    Inv accessors depends
      ({ s with m_instance := fun a => if a = api.accessor then some api else s.m_instance a
         }.setThread t ({ lookup with
          place := .visiting next, found := lookup.found ++ [api] } :: rest)) := by
  have hmem := List.mem_of_getElem? ht
  have hfits := h.fits _ hmem lookup List.mem_cons_self
  have hcreates : lookup.place.creates = some api.accessor := by rw [hp]; rfl
  have hholds : lookup.place.holds api.accessor = true := by rw [hp]; exact decide_eq_true rfl
  have hnone : s.m_instance api.accessor = none := by
    by_contra hsome
    have hle : createsOf (lookup :: rest) api.accessor ≤ creators s.threads api.accessor :=
      le_tally _ ht
    have hzero := h.creating _ hsome
    rw [createsOf, tally_cons, if_pos hcreates] at hle
    omega
  have hm : ∀ a, s.m_instance a ≠ none →
      (if a = api.accessor then some api else s.m_instance a) = s.m_instance a := by
    intro a ha
    rw [if_neg]
    rintro rfl
    exact ha hnone
  have hne : ∀ b ≠ api.accessor, creators (s.threads.set t ({ lookup with
      place := .visiting next, found := lookup.found ++ [api] } :: rest)) b =
        creators s.threads b := fun b hb =>
    creators_top_eq ht ⟨nofun, fun hc => absurd (Option.some.inj (hcreates.symm.trans hc)).symm hb⟩
  have hknown : ({ s with m_instance := fun a =>
      if a = api.accessor then some api else s.m_instance a } : State τ).Known api := if_pos rfl
  refine h.of ht rfl (fun b => .inl ?_) hm (fun b c hb => ?_) (fun b hb => ?_)
    ⟨h.created.1, fun b hb => ?_⟩ (fun type c hc => ?_) ?_ ?_ fun result hr => ?_
  · simp [holdsOf, Place.holds]
  · change (if b = api.accessor then some api else s.m_instance b) = some c at hb
    split at hb
    next he =>
      obtain rfl := Option.some.inj hb
      exact he.symm
    next => exact h.own b c hb
  · by_cases hba : b = api.accessor
    · subst hba
      exact h.creators_eq_zero ht hholds rfl
    · change (if b = api.accessor then some api else s.m_instance b) ≠ none at hb
      rw [if_neg hba] at hb
      exact (hne b hba).trans (h.creating b hb)
  · change (if b = api.accessor then some api else s.m_instance b) ≠ none ∨ _
    by_cases hba : b = api.accessor
    · exact .inl (by rw [if_pos hba]; nofun)
    · rw [if_neg hba]
      refine (h.created.2 b hb).imp_right fun hcre => ?_
      rwa [← hne b hba] at hcre
  · obtain ⟨hk, hf⟩ := h.cache type c hc
    exact ⟨hk.mono hm, hf⟩
  · intro l hl
    rcases List.mem_cons.1 hl with rfl | hl
    · exact (hfits.mono hm).visit (by rw [hp]; rfl) hknown
    · exact (h.fits _ hmem l (List.mem_cons_of_mem _ hl)).mono hm
  · exact isChain_replace (h.chains _ hmem) rfl rfl
  · obtain ⟨hk, hf⟩ := h.results result hr
    exact ⟨fun c hc => (hk c hc).mono hm, hf⟩

/-- What a lookup comes to is registered. -/
theorem lt_of_targets {query : Query} {type : τ} (h : a ∈ targets accessors query type) :
    a < accessors.length := by
  cases query with
  | find =>
      have hfirst : first accessors type = some a := Option.mem_toList.1 h
      exact (List.findIdx?_eq_some_iff_getElem.1 hfirst).1
  | findAll mode => exact List.mem_range.1 (List.mem_filter.1 h).1

theorem holders_eq_zero (h : s.anyLookup (Place.holds a) = false) : holders s.threads a = 0 := by
  refine tally_eq_zero.2 fun stack hs => tally_eq_zero.2 fun l hl => ?_
  rw [anyLookup, List.any_eq_false] at h
  have hstack := h stack hs
  rw [Bool.not_eq_true, List.any_eq_false] at hstack
  rw [Bool.eq_false_iff.2 (hstack l hl)]
  rfl

/-- `find` finds one instance at most. -/
theorem eq_nil_of_found {type : τ} {others : List Instance}
    (h : Found .find (targets accessors .find type) (api :: others)) : others = [] := by
  have hlength := congrArg List.length (h.2 nofun)
  have hone := Option.length_toList_le (o := first accessors type)
  rw [List.length_map, List.length_cons] at hlength
  exact List.length_eq_zero_iff.1 (by rw [targets] at hlength; omega)

/-- What `find` stores is of the first accessor. -/
theorem first_of_found {type : τ}
    (h : Found .find (targets accessors .find type) [api]) :
    first accessors type = some api.accessor := by
  have hall := h.2 nofun
  rw [targets] at hall
  cases hf : first accessors type with
  | none =>
      rw [hf] at hall
      cases hall
  | some a =>
      rw [hf] at hall
      rw [List.singleton_inj.1 hall.symm]

variable [DecidableEq τ]

/-- `find` stores what it has found, unless another lookup has stored something before. -/
theorem emplaced (h : Inv accessors depends s) (ht : s.threads[t]? = some (lookup :: rest))
    (hp : lookup.place = .emplacing api) :
    Inv accessors depends (State.leave { s with
        m_instances := fun type =>
          if type = lookup.type then some ((s.m_instances type).getD api)
          else s.m_instances type } t rest lookup [api]) := by
  have hfits := h.fits _ (List.mem_of_getElem? ht) lookup List.mem_cons_self
  have hnot : lookup.place.creates = none := by rw [hp]; rfl
  obtain ⟨hq, hfound⟩ := hfits.stores api (by rw [hp]; rfl)
  have hdone := hfits.done (by rw [hp]; rfl)
  have hknown := hfits.known api (by rw [hfound]; exact List.mem_cons_self)
  rw [hfound] at hdone
  refine h.leave ht hnot (fun type c hc => ?_) (fun c hc => ?_) hdone
  · split at hc
    next htype =>
      subst htype
      cases hcached : s.m_instances lookup.type with
      | some old =>
          rw [hcached] at hc
          obtain rfl := Option.some.inj hc
          exact h.cache _ _ hcached
      | none =>
          rw [hcached] at hc
          obtain rfl := Option.some.inj hc
          rw [hq] at hdone
          exact ⟨hknown, first_of_found hdone⟩
    next => exact h.cache type c hc
  · rwa [List.mem_singleton.1 hc]

/-- A lookup goes on: one case for each place, and the branches of the operation there. -/
theorem advance (h : Inv accessors depends s) (ht : s.threads[t]? = some (lookup :: rest))
    (hs : s.advance accessors t lookup rest = some s') : Inv accessors depends s' := by
  have hfits := h.fits _ (List.mem_of_getElem? ht) lookup List.mem_cons_self
  simp only [State.advance] at hs
  split at hs
  next hp =>
    split at hs
    next => cases hs
    next =>
      obtain rfl := Option.some.inj hs
      refine h.goOn ht (by rw [hp]; rfl) rfl nofun (hfits.place ?_ nofun)
      rw [hp]
      rfl
  next hp =>
    have hnot : lookup.place.creates = none := by rw [hp]; rfl
    split at hs
    next api hq hcached =>
      obtain rfl := Option.some.inj hs
      obtain ⟨hknown, hfirst⟩ := h.cache _ _ hcached
      refine h.leave ht hnot h.cache (fun c hc => ?_) ?_
      · rwa [List.mem_singleton.1 hc]
      · rw [hq, targets, hfirst]
        exact ⟨List.Sublist.refl _, fun _ => rfl⟩
    next =>
      obtain rfl := Option.some.inj hs
      refine h.goOn ht hnot rfl nofun (hfits.place ?_ nofun)
      rw [hp]
      rfl
  next a next hp =>
    have hnot : lookup.place.creates = none := by rw [hp]; rfl
    split at hs
    next hlazy =>
      obtain rfl := Option.some.inj hs
      refine h.goOn ht hnot rfl nofun (hfits.place ?_ nofun)
      rw [hp]
      rfl
    next hlazy =>
      obtain rfl := Option.some.inj hs
      have hleft : lookup.place.left (targets accessors lookup.query lookup.type) = a :: next := by
        rw [hp]
        rfl
      have hmem := hfits.mem_targets (by rw [hleft]; exact List.mem_cons_self)
      have hknown := h.eager a (lt_of_targets hmem) (by simpa using hlazy)
      exact h.goOn ht hnot rfl nofun (hfits.visit hleft hknown)
  next hp =>
    have hnot : lookup.place.creates = none := by rw [hp]; rfl
    have hdone := hfits.done (by rw [hp]; rfl)
    split at hs
    next api others hq hfound =>
      obtain rfl := Option.some.inj hs
      rw [hq, hfound] at hdone
      obtain rfl := eq_nil_of_found hdone
      refine h.goOn ht hnot rfl nofun ?_
      refine hfits.place (by rw [hp]; rfl) fun c hc => ?_
      obtain rfl := Option.some.inj hc
      exact ⟨hq, hfound⟩
    next =>
      obtain rfl := Option.some.inj hs
      exact h.leave ht hnot h.cache hfits.known hdone
  next a next hp =>
    have hnot : lookup.place.creates = none := by rw [hp]; rfl
    split at hs
    next => cases hs
    next hfree =>
      obtain rfl := Option.some.inj hs
      refine h.goOn ht hnot rfl (fun b hb => .inr ?_) (hfits.place ?_ nofun)
      · obtain rfl : a = b := of_decide_eq_true hb
        exact holders_eq_zero (by simpa using hfree)
      · rw [hp]
        rfl
  next a next hp =>
    have hnot : lookup.place.creates = none := by rw [hp]; rfl
    split at hs
    next api hi =>
      obtain rfl := Option.some.inj hs
      have ha := h.own a api hi
      subst ha
      exact h.goOn ht hnot rfl nofun (hfits.visit (by rw [hp]; rfl) hi)
    next hi =>
      split at hs
      next hq =>
        obtain rfl := Option.some.inj hs
        exact h.goOn ht hnot rfl nofun (hfits.pass (by rw [hp]; rfl) hq)
      next =>
        obtain rfl := Option.some.inj hs
        exact h.creates ht hp hi
  next api next hp =>
    obtain rfl := Option.some.inj hs
    exact h.constructed ht hp
  next api hp =>
    have hnot : lookup.place.creates = none := by rw [hp]; rfl
    split at hs
    next => cases hs
    next =>
      obtain rfl := Option.some.inj hs
      have hstores := hfits.stores api (by rw [hp]; rfl)
      refine h.goOn ht hnot rfl nofun (hfits.place ?_ fun c hc => ?_)
      · rw [hp]
        rfl
      · obtain rfl := Option.some.inj hc
        exact hstores
  next api hp =>
    obtain rfl := Option.some.inj hs
    exact h.emplaced ht hp

omit [DecidableEq τ] in
/-- A lookup is called. -/
theorem call (h : Inv accessors depends s) (ht : s.threads[t]? = some stack) {query : Query}
    {type : τ} (hchain : ∀ below ∈ stack.head?,
      Below accessors depends { query := query, type := type } below) :
    Inv accessors depends (s.setThread t ({ query := query, type := type } :: stack)) := by
  have hmem := List.mem_of_getElem? ht
  refine h.quiet ht rfl rfl rfl (fun a => ?_) (fun a => .inl ?_) h.cache ?_ ?_ h.results
  · rw [createsOf, tally_cons, if_neg (fun hc => by cases hc), Nat.zero_add]
  · rw [holdsOf, tally_cons]
    exact Nat.le_of_eq (Nat.zero_add _)
  · intro l hl
    rcases List.mem_cons.1 hl with rfl | hl
    · exact ⟨nofun, ⟨[], rfl, .slnil, fun _ => rfl⟩, nofun⟩
    · exact h.fits _ hmem l hl
  · exact List.isChain_cons.2 ⟨hchain, h.chains _ hmem⟩

theorem step (h : Inv accessors depends s) {action : Action τ}
    (hdep : Along accessors depends s action) (hs : step accessors s action = some s') :
    Inv accessors depends s' := by
  cases action with
  | call thread query type =>
      simp only [ServiceProvider.step] at hs
      split at hs
      next ht =>
        obtain rfl := Option.some.inj hs
        exact h.call ht fun below hbelow => absurd hbelow (Option.not_mem_none below)
      next lookup rest ht =>
        split at hs
        next c hc =>
          obtain rfl := Option.some.inj hs
          refine h.call ht fun below hbelow => ?_
          obtain rfl := Option.some.inj hbelow
          exact ⟨c, hc, hdep _ ht _ rfl c hc⟩
        next => cases hs
      next => cases hs
  | advance thread =>
      simp only [ServiceProvider.step] at hs
      split at hs
      next lookup rest ht => exact h.advance ht hs
      next => cases hs

omit [DecidableEq τ] in
theorem create (accessors : List (ServiceAccessor τ)) (depends : ℕ → ℕ → Prop) (n : ℕ) :
    Inv accessors depends (State.create accessors n) := by
  have hempty : ∀ stack ∈ (State.create accessors n).threads, stack = [] :=
    fun stack hs => List.eq_of_mem_replicate hs
  refine ⟨fun a => ?_, fun a api ha => ?_, fun a ha hl => if_pos ⟨ha, hl⟩, fun a _ => ?_,
    ⟨List.nodup_nil, nofun⟩, nofun, fun stack hs l hl => ?_, fun stack hs => ?_, nofun⟩
  · rw [State.create, holders, tally_replicate]
    exact Nat.zero_le 1
  · simp only [State.create] at ha
    split at ha
    · obtain rfl := Option.some.inj ha
      rfl
    · cases ha
  · rw [State.create, creators, tally_replicate]
    rfl
  · rw [hempty stack hs] at hl
    cases hl
  · rw [hempty stack hs]
    exact .nil

end Inv

/-! ### Who waits for whom -/

/-- The locks.  A writer that waits for `m_mutex` may keep new readers out; that it waits is a lock
of its own. -/
inductive Lock where
  | accessor (a : ℕ)
  | writer
  | provider
  deriving DecidableEq, Repr

/-- What a lookup waits for, unless it can go on. -/
def asks : Place → Option Lock
  | .entering    => some .writer
  | .locking a _ => some (.accessor a)
  | .storing _   => some .provider
  | _            => none

/-- What a lookup keeps from others. -/
def keeps (place : Place) : Lock → Bool
  | .accessor a => place.holds a
  | .writer     => place.stores.isSome
  | .provider   => place.reads || place.writes

def Asks (s : State τ) (thread : ℕ) (lock : Lock) : Prop :=
  ∃ lookup rest, s.threads[thread]? = some (lookup :: rest) ∧ asks lookup.place = some lock

def Holds (s : State τ) (thread : ℕ) (lock : Lock) : Prop :=
  ∃ stack, s.threads[thread]? = some stack ∧ ∃ lookup ∈ stack, keeps lookup.place lock = true

/-- A thread waits for one that has what it asks for. -/
def Waits (s : State τ) (thread other : ℕ) : Prop := ∃ lock, Asks s thread lock ∧ Holds s other lock

/-- A service's lock comes before those of what it depends on, and before `m_mutex`. -/
def Before (depends : ℕ → ℕ → Prop) : Lock → Lock → Prop
  | .accessor a, .accessor b => TransGen depends a b
  | .accessor _, .writer     => True
  | .accessor _, .provider   => True
  | .writer, .provider       => True
  | _, _                     => False

/-- Below a lookup there are constructors only, and their services depend on what it comes to. -/
theorem depends_of_mem (hfits : ∀ l ∈ lookup :: rest, s.Fits accessors l)
    (hchain : (lookup :: rest).IsChain (Below accessors depends)) {below : Lookup τ}
    (hb : below ∈ rest) : ∃ c ∈ below.place.creates,
      ∀ a ∈ targets accessors lookup.query lookup.type, TransGen depends c a := by
  induction rest generalizing lookup with
  | nil => cases hb
  | cons l rest ih =>
      obtain ⟨⟨c, hc, hdep⟩, hrest⟩ := List.isChain_cons_cons.1 hchain
      rcases List.mem_cons.1 hb with rfl | hb
      · exact ⟨c, hc, fun a ha => .single (hdep a ha)⟩
      · have hl := hfits l (List.mem_cons_of_mem _ List.mem_cons_self)
        have hcl : c ∈ targets accessors l.query l.type := hl.mem_targets (left_of_creates hc)
        obtain ⟨c', hc', hpath⟩ :=
          ih (fun l' hl' => hfits l' (List.mem_cons_of_mem _ hl')) hrest hb
        exact ⟨c', hc', fun a ha => (hpath c hcl).tail (hdep a ha)⟩

/-- A lookup that waits has at most announced itself as a writer. -/
theorem before_of_asks {place : Place} {r r' : Lock} (hkeeps : keeps place r = true)
    (hasks : asks place = some r') : Before depends r r' := by
  cases place with
  | entering => cases r <;> cases hkeeps
  | locking a rest => cases r <;> cases hkeeps
  | storing api =>
      obtain rfl := Option.some.inj hasks
      cases r with
      | accessor a => cases hkeeps
      | writer => trivial
      | provider => cases hkeeps
  | _ => cases hasks

/-- A constructor keeps its service's lock, and no other. -/
theorem eq_of_creates {place : Place} {r : Lock} (hc : place.creates = some a)
    (hkeeps : keeps place r = true) : r = .accessor a := by
  cases place with
  | creating api rest =>
      obtain rfl := Option.some.inj hc
      cases r with
      | accessor b => exact congrArg Lock.accessor (of_decide_eq_true hkeeps).symm
      | writer => cases hkeeps
      | provider => cases hkeeps
  | _ => cases hc

/-- **The locks are taken in an order.** -/
theorem Inv.ordered (h : Inv accessors depends s) (hacyclic : ∀ a, ¬ TransGen depends a a) :
    Ordered (Waits s) (Asks s) (Holds s) (Before depends) where
  edge hwaits := hwaits
  asks := by
    rintro i r r' ⟨l, rest, ht, hr⟩ ⟨l', rest', ht', hr'⟩
    obtain ⟨rfl, rfl⟩ := List.cons.inj (Option.some.inj (ht.symm.trans ht'))
    exact Option.some.inj (hr.symm.trans hr')
  order := by
    rintro i r r' ⟨stack, ht, l', hl', hkeeps⟩ ⟨l, rest, ht', hasks⟩
    obtain rfl := Option.some.inj (ht.symm.trans ht')
    have hmem := List.mem_of_getElem? ht
    rcases List.mem_cons.1 hl' with rfl | hl'
    · exact before_of_asks hkeeps hasks
    · obtain ⟨c, hc, hdep⟩ := depends_of_mem (h.fits _ hmem) (h.chains _ hmem) hl'
      obtain rfl := eq_of_creates hc hkeeps
      cases r' with
      | accessor a =>
          refine hdep a ((h.fits _ hmem l List.mem_cons_self).mem_targets ?_)
          cases hp : l.place <;> rw [hp] at hasks <;> cases hasks
          exact List.mem_cons_self
      | writer => trivial
      | provider => trivial
  trans := by
    intro r r' r'' h₁ h₂
    cases r <;> cases r' <;> cases r'' <;> first | exact h₁.trans h₂ | trivial
  irrefl := by
    rintro (a | _ | _) hb
    · exact hacyclic a hb
    · exact hb
    · exact hb

/-! ### The lookups -/

/-- No constructor is called twice, lookups that come to one accessor find one instance, `find`
gives that of the first accessor with the interface and `getAll` those of all, and no threads wait
for each other in a cycle. -/
structure Sound (accessors : List (ServiceAccessor τ)) (s : State τ) : Prop where
  once : s.created.Nodup
  same : ∀ r ∈ s.results, ∀ r' ∈ s.results, ∀ api ∈ r.found, ∀ api' ∈ r'.found,
    api.accessor = api'.accessor → api = api'
  found : ∀ r ∈ s.results, (r.found.map Instance.accessor).Sublist
      (targets accessors r.query r.type) ∧
    (r.query ≠ .findAll .doNotCreate →
      r.found.map Instance.accessor = targets accessors r.query r.type)
  apart : ∀ thread, ¬ TransGen (Waits s) thread thread

variable [DecidableEq τ]

/-- **The lookups of services.**  Where the services depend on each other in no cycle and their
constructors look up nothing else, every run of the threads' lookups is sound. -/
theorem lookups_sound {n : ℕ} (hacyclic : ∀ a, ¬ TransGen depends a a)
    (h : Steps (step accessors) (Along accessors depends) (.create accessors n) s) :
    Sound accessors s := by
  have hinv : Inv accessors depends s :=
    h.invariant (P := Inv accessors depends) (fun hi ha hs => hi.step ha hs)
      (.create accessors depends n)
  refine ⟨hinv.created.1, fun r hr r' hr' api ha api' ha' he => ?_,
    fun r hr => (hinv.results r hr).2, (hinv.ordered hacyclic).acyclic⟩
  have hk : s.m_instance api.accessor = some api := (hinv.results r hr).1 api ha
  have hk' : s.m_instance api'.accessor = some api' := (hinv.results r' hr').1 api' ha'
  rw [he] at hk
  exact Option.some.inj (hk.symm.trans hk')

/-- Two lazy services. -/
def two : List (ServiceAccessor ℕ) :=
  [⟨fun type => type = 0, true⟩, ⟨fun type => type = 1, true⟩]

/-- The second one's constructor looks up the first one, which another thread creates meanwhile. -/
def meanwhile : List (Action ℕ) :=
  .call 0 .find 1 :: List.replicate 5 (.advance 0) ++ .call 1 .find 0 ::
    List.replicate 5 (.advance 1) ++ .call 0 .find 0 :: List.replicate 3 (.advance 0) ++
    List.replicate 4 (.advance 1) ++ List.replicate 9 (.advance 0)

theorem lookups_sound_meanwhile : ∃ s, exec (step two) (.create two 2) meanwhile = some s ∧
    s.created = [1, 0] ∧ Sound two s := by
  have hacyclic : ∀ a : ℕ, ¬ TransGen (fun a b => b < a) a a := by
    intro a hcycle
    have hlt : ∀ {b : ℕ}, TransGen (fun a b => b < a) a b → b < a := by
      intro b hpath
      induction hpath with
      | single h => exact h
      | tail _ h ih => exact Nat.lt_trans h ih
    exact Nat.lt_irrefl a (hlt hcycle)
  have hallowed : Allowed (step two) (Along two fun a b => b < a) (.create two 2) meanwhile := by
    decide
  exact ⟨_, rfl, rfl, lookups_sound hacyclic (exec_steps hallowed rfl)⟩

end State

end

end MyEngine.Service.ServiceProvider
