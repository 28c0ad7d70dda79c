import Mathlib.Order.Nat
import MyEngine.Support.Replace
import MyEngine.Support.Runs

/-!
# Utils — Functor

`functor.h`: functors with the callables they hold, each in a block of its own.

* `moveFrom`: what both moves take from the other functor.
* `step`: the life of functors.
* `Owned`: who has what to destroy and to free.
* `functors_owned_iff`: the runs in which a callable stays where it has been put.
-/

namespace MyEngine.Utils.Functors

open Runs

/-- `FunctorImpl`: `m_invocable` is the callable that has been made, `m_mem` the block of one. -/
structure Functor where
  invocable : Option ℕ := none
  mem : Option ℕ := none
  allocator : Option ℕ := none
  alive : Bool := true
  deriving DecidableEq, Repr

/-- A callable in a block of its size, with the functors that have destroyed it, and those that have
freed the block, to which allocator. -/
structure Callable where
  size : ℕ
  allocator : ℕ
  destroyedBy : List ℕ := []
  freedBy : List (ℕ × Option ℕ) := []
  deriving DecidableEq, Repr

/-- The functors and the callables, in the order they are made. -/
structure State where
  functors : List Functor := []
  callables : List Callable := []
  deriving DecidableEq, Repr

namespace State

def setFunctor (s : State) (f : ℕ) (functor : Functor) : State :=
  { s with functors := s.functors.set f functor }

def invocable (s : State) (f : ℕ) : Option ℕ := s.functors[f]?.bind Functor.invocable

def setCallable (s : State) (c : ℕ) (callable : Callable) : State :=
  { s with callables := s.callables.set c callable }

/-- `std::destroy_at` of a callable. -/
def destroyAt (s : State) (f c : ℕ) : State :=
  match s.callables[c]? with
  | none          => s
  | some callable => s.setCallable c { callable with destroyedBy := f :: callable.destroyedBy }

/-- `free` of an allocator; there may be no block. -/
def free (s : State) (f : ℕ) (allocator mem : Option ℕ) : State :=
  match mem with
  | none   => s
  | some c =>
      match s.callables[c]? with
      | none          => s
      | some callable =>
          s.setCallable c { callable with freedBy := (f, allocator) :: callable.freedBy }

/-- `reset`; `m_mem` stays as it is. -/
def reset (s : State) (f : ℕ) : State :=
  match s.functors[f]? with
  | none         => s
  | some functor =>
      match functor.invocable with
      | none   => s
      | some c =>
          ((s.setFunctor f { functor with invocable := none, allocator := none }).destroyAt
            f c).free f functor.allocator functor.mem

/-- What a move makes of the two functors: `m_invocable` and `m_allocator` are exchanged. -/
def moveFrom (functor other : Functor) : Functor × Functor :=
  ({ functor with invocable := other.invocable, allocator := other.allocator },
    { other with invocable := none, allocator := none })

end State

inductive Action where
  | construct
  | constructCallable (size allocator : ℕ)
  | moveConstruct (other : ℕ)
  | moveAssign (f other : ℕ)
  | reset (f : ℕ)
  | destroy (f : ℕ)
  deriving DecidableEq, Repr

namespace State

def isAlive (s : State) (f : ℕ) : Bool := s.functors[f]?.any Functor.alive

/-- The functors that are named are there. -/
def Valid (s : State) : Action → Prop
  | .construct | .constructCallable _ _ => True
  | .moveConstruct f | .reset f | .destroy f => s.isAlive f
  | .moveAssign f other => s.isAlive f ∧ s.isAlive other

/-- What an action does. -/
def run (s : State) : Action → State
  | .construct => { s with functors := s.functors ++ [{}] }
  | .constructCallable size allocator =>
      { functors := s.functors ++
          [{ invocable := some s.callables.length
             mem := some s.callables.length
             allocator := some allocator }]
        callables := s.callables ++ [{ size, allocator }] }
  | .moveConstruct other =>
      match s.functors[other]? with
      | none         => s
      | some functor =>
          let moved := moveFrom {} functor
          { s with functors := s.functors.set other moved.2 ++ [moved.1] }
  | .moveAssign f other =>
      let s' := s.reset f
      match s'.functors[f]?, s'.functors[other]? with
      | some functor, some functor' =>
          let moved := moveFrom functor functor'
          (s'.setFunctor other moved.2).setFunctor f moved.1
      | _, _ => s'
  | .reset f => s.reset f
  | .destroy f =>
      let s' := s.reset f
      match s'.functors[f]? with
      | none         => s'
      | some functor => s'.setFunctor f { functor with alive := false }

instance (s : State) : DecidablePred s.Valid
  | .construct | .constructCallable _ _ => inferInstanceAs (Decidable True)
  | .moveConstruct _ | .reset _ | .destroy _ => inferInstanceAs (Decidable (_ = true))
  | .moveAssign _ _ => inferInstanceAs (Decidable (_ ∧ _))

def step (s : State) (a : Action) : Option State := if s.Valid a then some (s.run a) else none

end State

/-! ### Who owns what -/

/-- A functor with a callable has its block, too, and is the only one to have it; one without has no
block that is not free.  A callable without a functor has been destroyed and freed by the one that
had it, once. -/
structure Owned (s : State) : Prop where
  holder : ∀ {f c : ℕ} {functor : Functor}, s.functors[f]? = some functor →
    functor.invocable = some c → functor.alive ∧ functor.mem = some c ∧
      ∃ callable : Callable, s.callables[c]? = some callable ∧
        functor.allocator = some callable.allocator ∧ callable.destroyedBy = [] ∧
          callable.freedBy = []
  unique : ∀ {f f' c : ℕ}, s.invocable f = some c → s.invocable f' = some c → f = f'
  mem_lt : ∀ {f c : ℕ} {functor : Functor}, s.functors[f]? = some functor →
    functor.mem = some c → c < s.callables.length
  empty : ∀ {f c : ℕ} {functor : Functor} {callable : Callable}, s.functors[f]? = some functor →
    functor.invocable = none → functor.mem = some c → s.callables[c]? = some callable →
      callable.freedBy ≠ []
  callable : ∀ {c : ℕ} {callable : Callable}, s.callables[c]? = some callable →
    (∃ f, s.invocable f = some c) ∨ ∃ f, callable.destroyedBy = [f] ∧
      callable.freedBy = [(f, some callable.allocator)]

/-- The action does not take a callable from one functor to another. -/
def Unmoved (s : State) : Action → Prop
  | .moveConstruct other => s.invocable other = none
  | .moveAssign f other  => f = other ∨ s.invocable other = none
  | _                    => True

section Life

variable {s t : State} {f f' g c c' : ℕ} {functor functor' : Functor} {callable : Callable}

theorem invocable_of_get (hf : s.functors[f]? = some functor) :
    s.invocable f = functor.invocable := by
  rw [State.invocable, hf, Option.bind_some]

theorem get_of_invocable (h : s.invocable f = some c) :
    ∃ functor, s.functors[f]? = some functor ∧ functor.invocable = some c :=
  Option.bind_eq_some_iff.1 h

theorem invocable_set (hf : s.functors[f]? = some functor) (functor' : Functor) (g : ℕ) :
    (s.setFunctor f functor').invocable g =
      if f = g then functor'.invocable else s.invocable g := by
  split
  · next h =>
      subst h
      exact invocable_of_get (s := s.setFunctor f functor') (getElem?_replaced hf functor')
  · next h => rw [State.invocable, State.setFunctor, List.getElem?_set_ne h, State.invocable]

theorem invocable_setCallable : (s.setCallable c callable).invocable f = s.invocable f := rfl

theorem reset_of_empty (h : s.invocable f = none) : s.reset f = s := by
  unfold State.reset
  cases hf : s.functors[f]? with
  | none => rfl
  | some functor =>
      rw [invocable_of_get hf] at h
      simp only [h]

theorem destroyAt_eq (hc : s.callables[c]? = some callable) : s.destroyAt f c =
    s.setCallable c { callable with destroyedBy := f :: callable.destroyedBy } := by
  simp only [State.destroyAt, hc]

theorem free_eq (hc : s.callables[c]? = some callable) (allocator : Option ℕ) :
    s.free f allocator (some c) =
      s.setCallable c { callable with freedBy := (f, allocator) :: callable.freedBy } := by
  simp only [State.free, hc]

/-- A functor that holds a callable destroys it, and frees its block. -/
theorem reset_of_holder (hs : Owned s) (hf : s.functors[f]? = some functor)
    (hinvocable : functor.invocable = some c) (hc : s.callables[c]? = some callable) :
    s.reset f = (s.setFunctor f { functor with invocable := none, allocator := none }).setCallable c
      { callable with destroyedBy := [f], freedBy := [(f, some callable.allocator)] } := by
  obtain ⟨-, hmem, callable', hc', hallocator, hdestroyed, hfreed⟩ := hs.holder hf hinvocable
  cases hc.symm.trans hc'
  have hreset : s.reset f =
      ((s.setFunctor f { functor with invocable := none, allocator := none }).destroyAt f c).free
        f functor.allocator functor.mem := by
    simp only [State.reset, hf, hinvocable]
  have hset := getElem?_replaced hc { callable with destroyedBy := [f] }
  rw [hreset, destroyAt_eq (s := s.setFunctor f _) hc, hmem, hallocator, hdestroyed, free_eq hset]
  simp only [State.setCallable, hfreed, List.set_set]

/-- The callable of a functor that is reset is destroyed and freed by it. -/
theorem Owned.reset (hs : Owned s) (f : ℕ) : Owned (s.reset f) := by
  cases hinvocable : s.invocable f with
  | none => rwa [reset_of_empty hinvocable]
  | some c =>
      obtain ⟨functor, hf, hfunctor⟩ := get_of_invocable hinvocable
      obtain ⟨-, hmem, callable, hc, -⟩ := hs.holder hf hfunctor
      have hinvocables := invocable_set hf { functor with invocable := none, allocator := none }
      rw [reset_of_holder hs hf hfunctor hc]
      constructor
      case holder =>
        intro f' c' functor' hf' hinvocable'
        rcases getElem?_set_cases hf' with ⟨-, rfl⟩ | ⟨hne, hf'⟩
        · cases hinvocable'
        · obtain ⟨halive, hmem', callable', hc', hrest⟩ := hs.holder hf' hinvocable'
          have hcc : c ≠ c' := by
            rintro rfl
            exact hne (hs.unique hinvocable ((invocable_of_get hf').trans hinvocable'))
          exact ⟨halive, hmem', callable', (List.getElem?_set_ne hcc).trans hc', hrest⟩
      case unique =>
        intro f₁ f₂ c' h₁ h₂
        rw [invocable_setCallable, hinvocables] at h₁ h₂
        split at h₁
        · cases h₁
        · split at h₂
          · cases h₂
          · exact hs.unique h₁ h₂
      case mem_lt =>
        intro f' c' functor' hf' hmem'
        rw [State.setCallable, List.length_set]
        rcases getElem?_set_cases hf' with ⟨-, rfl⟩ | ⟨-, hf'⟩
        · exact hs.mem_lt hf hmem'
        · exact hs.mem_lt hf' hmem'
      case empty =>
        intro f' c' functor' callable' hf' hinvocable' hmem' hc'
        rcases getElem?_set_cases hc' with ⟨-, rfl⟩ | ⟨hcc, hc'⟩
        · exact List.cons_ne_nil _ _
        · rcases getElem?_set_cases hf' with ⟨-, rfl⟩ | ⟨-, hf'⟩
          · exact absurd (Option.some.inj (hmem.symm.trans hmem')) hcc
          · exact hs.empty hf' hinvocable' hmem' hc'
      case callable =>
        intro c' callable' hc'
        rcases getElem?_set_cases hc' with ⟨-, rfl⟩ | ⟨hcc, hc'⟩
        · exact .inr ⟨f, rfl, rfl⟩
        · refine (hs.callable hc').imp_left ?_
          rintro ⟨f', hf'⟩
          refine ⟨f', ?_⟩
          rw [invocable_setCallable, hinvocables, if_neg, hf']
          rintro rfl
          exact hcc (Option.some.inj (hinvocable.symm.trans hf'))

/-- A functor is replaced by one that holds nothing, as the one before it, and has its block. -/
theorem Owned.setFunctor (hs : Owned s) (hf : s.functors[f]? = some functor)
    (hbefore : functor.invocable = none) (hafter : functor'.invocable = none)
    (hmem : functor'.mem = functor.mem) : Owned (s.setFunctor f functor') := by
  have hinvocable : ∀ g, (s.setFunctor f functor').invocable g = s.invocable g := by
    intro g
    rw [invocable_set hf]
    split
    · next h => rw [← h, invocable_of_get hf, hbefore, hafter]
    · rfl
  constructor
  case holder =>
    intro g c functor'' hg hinv
    rcases getElem?_set_cases hg with ⟨-, rfl⟩ | ⟨-, hg⟩
    · cases hafter.symm.trans hinv
    · exact hs.holder hg hinv
  case unique =>
    intro f₁ f₂ c h₁ h₂
    rw [hinvocable] at h₁ h₂
    exact hs.unique h₁ h₂
  case mem_lt =>
    intro g c functor'' hg hmem'
    rcases getElem?_set_cases hg with ⟨-, rfl⟩ | ⟨-, hg⟩
    · exact hs.mem_lt hf (hmem ▸ hmem')
    · exact hs.mem_lt hg hmem'
  case empty =>
    intro g c functor'' callable hg hinv hmem' hc
    rcases getElem?_set_cases hg with ⟨-, rfl⟩ | ⟨-, hg⟩
    · exact hs.empty hf hbefore (hmem ▸ hmem') hc
    · exact hs.empty hg hinv hmem' hc
  case callable =>
    intro c callable hc
    exact (hs.callable hc).imp_left fun ⟨g, hg⟩ => ⟨g, (hinvocable g).trans hg⟩

/-- A functor that holds nothing and has no block. -/
theorem Owned.push (hs : Owned s) (hinvocable : functor.invocable = none)
    (hmem : functor.mem = none) : Owned { s with functors := s.functors ++ [functor] } := by
  have hinv : ∀ g, ({ s with functors := s.functors ++ [functor] } : State).invocable g =
      s.invocable g := by
    intro g
    rw [State.invocable, State.invocable, List.getElem?_append]
    split
    · rfl
    · next h =>
        rw [List.getElem?_eq_none (Nat.le_of_not_lt h)]
        cases g - s.functors.length <;> simp [hinvocable]
  constructor
  case holder =>
    intro g c functor' hg hinv'
    rcases getElem?_concat_cases hg with hg | ⟨-, rfl⟩
    · exact hs.holder hg hinv'
    · cases hinvocable.symm.trans hinv'
  case unique =>
    intro f₁ f₂ c h₁ h₂
    rw [hinv] at h₁ h₂
    exact hs.unique h₁ h₂
  case mem_lt =>
    intro g c functor' hg hmem'
    rcases getElem?_concat_cases hg with hg | ⟨-, rfl⟩
    · exact hs.mem_lt hg hmem'
    · cases hmem.symm.trans hmem'
  case empty =>
    intro g c functor' callable hg hinv' hmem' hc
    rcases getElem?_concat_cases hg with hg | ⟨-, rfl⟩
    · exact hs.empty hg hinv' hmem' hc
    · cases hmem.symm.trans hmem'
  case callable =>
    intro c callable hc
    exact (hs.callable hc).imp_left fun ⟨g, hg⟩ => ⟨g, (hinv g).trans hg⟩

/-- A functor with a callable and a block that nobody has had. -/
theorem Owned.constructCallable (hs : Owned s) (size allocator : ℕ) :
    Owned (s.run (.constructCallable size allocator)) := by
  have hold : ∀ {g c : ℕ}, s.invocable g = some c → c < s.callables.length := by
    intro g c hg
    obtain ⟨functor, hget, hinvocable⟩ := get_of_invocable hg
    exact hs.mem_lt hget (hs.holder hget hinvocable).2.1
  have hinv : ∀ {g c : ℕ}, (s.run (.constructCallable size allocator)).invocable g = some c →
      s.invocable g = some c ∨ g = s.functors.length ∧ c = s.callables.length := by
    intro g c hg
    obtain ⟨functor, hget, hinvocable⟩ := get_of_invocable hg
    rcases getElem?_concat_cases hget with hget | ⟨rfl, rfl⟩
    · exact .inl ((invocable_of_get hget).trans hinvocable)
    · exact .inr ⟨rfl, (Option.some.inj hinvocable).symm⟩
  constructor
  case holder =>
    intro g c functor hg hinvocable
    rcases getElem?_concat_cases hg with hg | ⟨-, rfl⟩
    · obtain ⟨halive, hmem, callable, hc, hrest⟩ := hs.holder hg hinvocable
      exact ⟨halive, hmem, callable, getElem?_concat_of_some hc _, hrest⟩
    · obtain rfl := Option.some.inj hinvocable
      exact ⟨rfl, rfl, _, List.getElem?_concat_length, rfl, rfl, rfl⟩
  case unique =>
    intro f₁ f₂ c h₁ h₂
    rcases hinv h₁ with h₁ | ⟨rfl, hc₁⟩
    · rcases hinv h₂ with h₂ | ⟨-, hc₂⟩
      · exact hs.unique h₁ h₂
      · exact absurd hc₂ (hold h₁).ne
    · rcases hinv h₂ with h₂ | ⟨rfl, -⟩
      · exact absurd hc₁ (hold h₂).ne
      · rfl
  case mem_lt =>
    intro g c functor hg hmem
    simp only [State.run, List.length_append]
    rcases getElem?_concat_cases hg with hg | ⟨-, rfl⟩
    · exact (hs.mem_lt hg hmem).trans_le (Nat.le_add_right _ _)
    · exact Option.some.inj hmem ▸ Nat.lt_succ_self _
  case empty =>
    intro g c functor callable hg hinvocable hmem hc
    rcases getElem?_concat_cases hg with hg | ⟨-, rfl⟩
    · rcases getElem?_concat_cases hc with hc | ⟨rfl, -⟩
      · exact hs.empty hg hinvocable hmem hc
      · exact absurd (hs.mem_lt hg hmem) (Nat.lt_irrefl _)
    · cases hinvocable
  case callable =>
    intro c callable hc
    rcases getElem?_concat_cases hc with hc | ⟨rfl, -⟩
    · refine (hs.callable hc).imp_left fun ⟨g, hg⟩ => ⟨g, ?_⟩
      obtain ⟨functor, hget, hinvocable⟩ := get_of_invocable hg
      exact (invocable_of_get (getElem?_concat_of_some hget _)).trans hinvocable
    · refine .inl ⟨s.functors.length, ?_⟩
      rw [State.invocable, State.run, List.getElem?_concat_length, Option.bind_some]

theorem reset_get (hs : Owned s) (hf : s.functors[f]? = some functor) :
    ∃ functor', (s.reset f).functors[f]? = some functor' ∧ functor'.invocable = none := by
  cases hinvocable : functor.invocable with
  | none =>
      rw [reset_of_empty ((invocable_of_get hf).trans hinvocable)]
      exact ⟨functor, hf, hinvocable⟩
  | some c =>
      obtain ⟨-, -, callable, hc, -⟩ := hs.holder hf hinvocable
      rw [reset_of_holder hs hf hinvocable hc]
      exact ⟨_, getElem?_replaced hf _, rfl⟩

theorem reset_get_ne (hs : Owned s) (hne : f ≠ g) :
    (s.reset f).functors[g]? = s.functors[g]? := by
  cases hinvocable : s.invocable f with
  | none => rw [reset_of_empty hinvocable]
  | some c =>
      obtain ⟨functor, hf, hfunctor⟩ := get_of_invocable hinvocable
      obtain ⟨-, -, callable, hc, -⟩ := hs.holder hf hfunctor
      rw [reset_of_holder hs hf hfunctor hc]
      exact List.getElem?_set_ne hne

theorem get_of_isAlive (h : s.isAlive f) : ∃ functor, s.functors[f]? = some functor :=
  ((Option.any_eq_true _ _).1 h).imp fun _ hf => hf.1

/-- What an assignment leaves, when there is something to assign. -/
theorem run_moveAssign (hf : (s.reset f).functors[f]? = some functor)
    (hother : (s.reset f).functors[g]? = some functor') : s.run (.moveAssign f g) =
      ((s.reset f).setFunctor g { functor' with invocable := none, allocator := none }).setFunctor f
        { functor with invocable := functor'.invocable, allocator := functor'.allocator } := by
  simp only [State.run, hf, hother, State.moveFrom]

theorem run_moveConstruct (hother : s.functors[g]? = some functor) : s.run (.moveConstruct g) =
    { s.setFunctor g { functor with invocable := none, allocator := none } with
      functors := (s.setFunctor g { functor with invocable := none, allocator := none }).functors ++
        [{ invocable := functor.invocable, allocator := functor.allocator }] } := by
  simp only [State.run, hother, State.moveFrom]
  rfl

theorem run_owned (hs : Owned s) {a : Action} (hvalid : s.Valid a) (h : Unmoved s a) :
    Owned (s.run a) := by
  cases a with
  | construct => exact hs.push rfl rfl
  | constructCallable size allocator => exact hs.constructCallable size allocator
  | moveConstruct other =>
      obtain ⟨functor, hother⟩ := get_of_isAlive hvalid
      have hnone : functor.invocable = none := (invocable_of_get hother).symm.trans h
      have hmoved : Owned (s.setFunctor other
          { functor with invocable := none, allocator := none }) :=
        hs.setFunctor hother hnone rfl rfl
      rw [run_moveConstruct hother]
      exact hmoved.push hnone rfl
  | moveAssign f other =>
      obtain ⟨functor₀, hf₀⟩ := get_of_isAlive hvalid.1
      obtain ⟨functor, hf, hnone⟩ := reset_get hs hf₀
      by_cases hself : f = other
      · -- After the reset there is nothing left to take from itself.
        subst hself
        have hmoved : Owned ((s.reset f).setFunctor f
            { functor with invocable := none, allocator := none }) :=
          (hs.reset f).setFunctor hf hnone rfl rfl
        rw [run_moveAssign hf hf]
        exact hmoved.setFunctor (getElem?_replaced hf _) rfl hnone rfl
      · obtain ⟨functor', hother₀⟩ := get_of_isAlive hvalid.2
        have hother := (reset_get_ne hs hself).trans hother₀
        have hnone' : functor'.invocable = none :=
          (invocable_of_get hother₀).symm.trans (h.resolve_left hself)
        have hmoved : Owned ((s.reset f).setFunctor other
            { functor' with invocable := none, allocator := none }) :=
          (hs.reset f).setFunctor hother hnone' rfl rfl
        rw [run_moveAssign hf hother]
        exact hmoved.setFunctor ((List.getElem?_set_ne (Ne.symm hself)).trans hf) hnone hnone' rfl
  | reset f => exact hs.reset f
  | destroy f =>
      obtain ⟨functor₀, hf₀⟩ := get_of_isAlive hvalid
      obtain ⟨functor, hf, hnone⟩ := reset_get hs hf₀
      simp only [State.run, hf]
      exact (hs.reset f).setFunctor hf hnone hnone rfl

/-- A functor whose callable is taken keeps its block. -/
theorem not_owned_of_moved (hs : Owned s) {a : Action} (hvalid : s.Valid a) (h : ¬ Unmoved s a) :
    ¬ Owned (s.run a) := by
  intro hafter
  cases a with
  | construct | constructCallable | reset | destroy => exact h trivial
  | moveConstruct other =>
      obtain ⟨functor, hother⟩ := get_of_isAlive hvalid
      obtain ⟨c, hc⟩ := Option.ne_none_iff_exists'.1 h
      obtain ⟨-, hmem, callable, hcallable, -, -, hfreed⟩ :=
        hs.holder hother ((invocable_of_get hother).symm.trans hc)
      -- the block is still in the functor that was moved from, and it has not been freed
      rw [run_moveConstruct hother] at hafter
      have hgot := getElem?_concat_of_some
        (getElem?_replaced hother { functor with invocable := none, allocator := none })
        { invocable := functor.invocable, allocator := functor.allocator }
      exact hafter.empty hgot rfl hmem hcallable hfreed
  | moveAssign f other =>
      obtain ⟨hne, hsome⟩ := not_or.1 h
      obtain ⟨functor₀, hf₀⟩ := get_of_isAlive hvalid.1
      obtain ⟨functor, hf, hnone⟩ := reset_get hs hf₀
      obtain ⟨functor', hother₀⟩ := get_of_isAlive hvalid.2
      obtain ⟨c, hc⟩ := Option.ne_none_iff_exists'.1 hsome
      have hother := (reset_get_ne hs hne).trans hother₀
      obtain ⟨-, hmem, callable, hcallable, -, -, hfreed⟩ :=
        (hs.reset f).holder hother ((invocable_of_get hother₀).symm.trans hc)
      rw [run_moveAssign hf hother] at hafter
      have hgot := getElem?_replaced hother { functor' with invocable := none, allocator := none }
      exact @Owned.empty _ hafter other c _ callable
        ((List.getElem?_set_ne hne).trans hgot) rfl hmem hcallable hfreed

theorem owned_init : Owned {} where
  holder := nofun
  unique := nofun
  mem_lt := nofun
  empty := nofun
  callable := nofun

end Life

/-- **The owners of the callables**, in the runs in which none is moved, and in no other ones. -/
theorem functors_owned_iff {calls : List Action}
    (hvalid : Allowed State.step State.Valid {} calls) :
    Allowed State.step (fun s a => ∀ t ∈ s.step a, Owned t) {} calls ↔
      Allowed State.step Unmoved {} calls := by
  refine allowed_congr (P := Owned) (fun _ _ hok hstep => hok _ hstep) ?_ calls owned_init hvalid
  intro s a hs ha
  have hstep : s.step a = some (s.run a) := if_pos ha
  constructor
  · intro hok
    by_contra hmoved
    exact not_owned_of_moved hs ha hmoved (hok _ hstep)
  · intro hunmoved t ht
    rw [hstep] at ht
    exact Option.some.inj ht ▸ run_owned hs ha hunmoved

/-- Two functors with callables; one is given up, and the other one's place is used again. -/
theorem functors_owned_iff_used :
    Allowed State.step (fun s a => ∀ t ∈ s.step a, Owned t) {}
        [.constructCallable 24 0, .construct, .reset 0, .moveAssign 0 1, .destroy 1, .destroy 0] ↔
      Allowed State.step Unmoved {}
        [.constructCallable 24 0, .construct, .reset 0, .moveAssign 0 1, .destroy 1, .destroy 0] :=
  functors_owned_iff (by decide)

/-- A functor is moved, and both are destroyed: the block is not freed. -/
theorem not_owned_moved : ∃ t, exec State.step {}
    [.constructCallable 24 0, .moveConstruct 0, .destroy 1, .destroy 0] = some t ∧ ¬ Owned t := by
  refine ⟨⟨[⟨none, some 0, none, false⟩, ⟨none, none, none, false⟩], [⟨24, 0, [1], []⟩]⟩, rfl, ?_⟩
  intro howned
  rcases @Owned.callable _ howned 0 _ rfl with ⟨f, hf⟩ | ⟨f, -, hfreed⟩
  · rcases f with _ | _ | f <;> cases hf
  · cases hfreed

end MyEngine.Utils.Functors
