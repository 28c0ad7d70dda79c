import Mathlib.Data.List.Count
import Mathlib.Data.Nat.Notation

/-!
# Modules — ModuleManager

`module_manager.cpp`: the phases of the modules, with the calls the modules get.  A module is known
by its index in `m_modules`.

* `doModulesPhase`: the phases; a phase that fails shuts modules down.
* `life`: all phases one after the other, and the destructor.
* `shutdown_once_iff`: when exactly the modules that have been initialized are shut down.
-/

namespace MyEngine.Modules

/-- What the calls of a module answer; `ε` are the errors. -/
structure Module (ε : Type) where
  moduleInit : Except ε Unit
  modulePostInit : Except ε Unit

inductive ModulesPhase where
  | init
  | postInit
  | shutdown
  deriving DecidableEq, Repr

/-- A call of the module at an index, and if it has succeeded. -/
inductive Call where
  | moduleInit (index : ℕ) (succeeded : Bool)
  | modulePostInit (index : ℕ) (succeeded : Bool)
  | moduleShutdown (index : ℕ)
  deriving DecidableEq, Repr

/-- `calls` are all those the modules have got. -/
structure ModuleManagerImpl (ε : Type) where
  modules : List (Module ε)
  nextPhase : ModulesPhase := .init
  calls : List Call := []

variable {ε : Type}

/-- The loop of a phase from an index on, with the index it breaks at. -/
def callFrom (outcome : Module ε → Except ε Unit) (call : ℕ → Bool → Call) :
    ℕ → List (Module ε) → List Call × Option (ℕ × ε)
  | _, []                      => ([], none)
  | initIndex, module :: modules =>
      match outcome module with
      | .ok _    =>
          let (calls, failed) := callFrom outcome call (initIndex + 1) modules
          (call initIndex true :: calls, failed)
      | .error e => ([call initIndex false], some (initIndex, e))

namespace ModuleManagerImpl

def addCalls (m : ModuleManagerImpl ε) (calls : List Call) : ModuleManagerImpl ε :=
  { m with calls := m.calls ++ calls }

/-- A phase that calls every module, and `moduleShutdown` up to the module that has failed. -/
def initPhase (outcome : Module ε → Except ε Unit) (call : ℕ → Bool → Call) (next : ModulesPhase)
    (m : ModuleManagerImpl ε) : Except ε Unit × ModuleManagerImpl ε :=
  match callFrom outcome call 0 m.modules with
  | (calls, none)                => (.ok (), { m.addCalls calls with nextPhase := next })
  | (calls, some (initIndex, e)) =>
      (.error e, m.addCalls (calls ++ (List.range (initIndex + 1)).map .moduleShutdown))

def initModules (m : ModuleManagerImpl ε) : Except ε Unit × ModuleManagerImpl ε :=
  m.initPhase Module.moduleInit .moduleInit .postInit

def postInitModules (m : ModuleManagerImpl ε) : Except ε Unit × ModuleManagerImpl ε :=
  m.initPhase Module.modulePostInit .modulePostInit .shutdown

def shutdownModules (m : ModuleManagerImpl ε) : ModuleManagerImpl ε :=
  if m.nextPhase ≠ .shutdown then m
  else
    { modules := []
      nextPhase := .init
      calls := m.calls ++ (List.range m.modules.length).map .moduleShutdown }

def doModulesPhase (m : ModuleManagerImpl ε) :
    ModulesPhase → Except ε Unit × ModuleManagerImpl ε
  | .init     => m.initModules
  | .postInit => m.postInitModules
  | .shutdown => (.ok (), m.shutdownModules)

/-- The destructor. -/
def destroy (m : ModuleManagerImpl ε) : ModuleManagerImpl ε := m.shutdownModules

/-- The two phases, the second one if the first has succeeded. -/
def start (m : ModuleManagerImpl ε) : Except ε Unit × ModuleManagerImpl ε :=
  match m.doModulesPhase .init with
  | (.ok _, m)    => m.doModulesPhase .postInit
  | (.error e, m) => (.error e, m)

end ModuleManagerImpl

/-- The calls over the whole life of a manager; `reached` is that the shutdown phase is called when
both others have succeeded. -/
def life (modules : List (Module ε)) (reached : Bool) : List Call :=
  match ({ modules := modules } : ModuleManagerImpl ε).start with
  | (.ok _, m)    => (if reached then (m.doModulesPhase .shutdown).2 else m).destroy.calls
  | (.error _, m) => m.destroy.calls

/-! ### Calls -/

/-- Every module that has been initialized is shut down once, and no other one is. -/
def ShutdownOnce (calls : List Call) : Prop :=
  ∀ index, calls.count (.moduleShutdown index) = if .moduleInit index true ∈ calls then 1 else 0

/-- All calls succeed. -/
theorem callFrom_of_ok {outcome : Module ε → Except ε Unit} {call : ℕ → Bool → Call} (start : ℕ)
    {modules : List (Module ε)} (h : ∀ module ∈ modules, outcome module = .ok ()) :
    callFrom outcome call start modules =
      ((List.range' start modules.length).map (call · true), none) := by
  induction modules generalizing start with
  | nil => rfl
  | cons module modules ih =>
      obtain ⟨hmodule, hmodules⟩ := List.forall_mem_cons.1 h
      rw [callFrom, hmodule, ih (start + 1) hmodules, List.length_cons, List.range'_succ,
        List.map_cons]

/-- The first one that fails ends them. -/
theorem callFrom_append {outcome : Module ε → Except ε Unit} {call : ℕ → Bool → Call} (start : ℕ)
    {before after : List (Module ε)} {module : Module ε} {e : ε}
    (h : ∀ module ∈ before, outcome module = .ok ()) (hmodule : outcome module = .error e) :
    callFrom outcome call start (before ++ module :: after) =
      ((List.range' start before.length).map (call · true) ++ [call (start + before.length) false],
        some (start + before.length, e)) := by
  induction before generalizing start with
  | nil =>
      rw [List.nil_append, callFrom, hmodule]
      rfl
  | cons first before ih =>
      obtain ⟨hfirst, hbefore⟩ := List.forall_mem_cons.1 h
      rw [List.cons_append, callFrom, hfirst, ih (start + 1) hbefore, List.length_cons,
        List.range'_succ, Nat.add_right_comm start 1, Nat.add_assoc start]
      rfl

/-- Either all modules succeed or there is a first one that does not. -/
theorem first_failure (outcome : Module ε → Except ε Unit) (modules : List (Module ε)) :
    (∀ module ∈ modules, outcome module = .ok ()) ∨
      ∃ before module after e, modules = before ++ module :: after ∧
        (∀ module ∈ before, outcome module = .ok ()) ∧ outcome module = .error e := by
  induction modules with
  | nil => exact .inl (List.forall_mem_nil _)
  | cons first modules ih =>
      cases hfirst : outcome first with
      | error e => exact .inr ⟨[], first, modules, e, rfl, List.forall_mem_nil _, hfirst⟩
      | ok =>
          rcases ih with hall | ⟨before, module, after, e, rfl, hbefore, hmodule⟩
          · exact .inl (List.forall_mem_cons.2 ⟨hfirst, hall⟩)
          · exact .inr ⟨first :: before, module, after, e, rfl,
              List.forall_mem_cons.2 ⟨hfirst, hbefore⟩, hmodule⟩

theorem count_shutdown_of_ne (call : ℕ → Call) {index : ℕ}
    (h : ∀ i, call i ≠ .moduleShutdown index) (n : ℕ) :
    ((List.range n).map call).count (.moduleShutdown index) = 0 := by
  refine List.count_eq_zero.2 fun hmem => ?_
  obtain ⟨i, -, hi⟩ := List.mem_map.1 hmem
  exact h i hi

theorem count_shutdowns (n index : ℕ) :
    ((List.range n).map Call.moduleShutdown).count (.moduleShutdown index) =
      if index < n then 1 else 0 := by
  rw [List.count_map_of_injective _ _ fun _ _ h => Call.moduleShutdown.inj h, List.count_range]

/-! ### Lives -/

section Life

variable {modules before after : List (Module ε)} {module : Module ε} {e : ε}

/-- Without a failure all of them are shut down, by the phase or by the destructor. -/
theorem life_of_ok (hinit : ∀ module ∈ modules, module.moduleInit = .ok ())
    (hpost : ∀ module ∈ modules, module.modulePostInit = .ok ()) (reached : Bool) :
    life modules reached = (List.range modules.length).map (Call.moduleInit · true) ++
      (List.range modules.length).map (Call.modulePostInit · true) ++
      (List.range modules.length).map Call.moduleShutdown := by
  have hstart : ({ modules := modules } : ModuleManagerImpl ε).start = (.ok (), {
      modules := modules
      nextPhase := .shutdown
      calls := (List.range modules.length).map (Call.moduleInit · true) ++
        (List.range modules.length).map (Call.modulePostInit · true) }) := by
    rw [List.range_eq_range']
    simp only [ModuleManagerImpl.start, ModuleManagerImpl.doModulesPhase,
      ModuleManagerImpl.initModules, ModuleManagerImpl.postInitModules,
      ModuleManagerImpl.initPhase, ModuleManagerImpl.addCalls, callFrom_of_ok 0 hinit,
      callFrom_of_ok 0 hpost, List.nil_append]
  rw [life, hstart]
  cases reached <;> rfl

/-- A failed second phase shuts down the modules up to the one that has failed, and the destructor
none. -/
theorem life_of_postInit (hmodules : modules = before ++ module :: after)
    (hinit : ∀ module ∈ modules, module.moduleInit = .ok ())
    (hpost : ∀ module ∈ before, module.modulePostInit = .ok ())
    (hfailed : module.modulePostInit = .error e) (reached : Bool) :
    life modules reached = (List.range modules.length).map (Call.moduleInit · true) ++
      ((List.range before.length).map (Call.modulePostInit · true) ++
        [.modulePostInit before.length false] ++
        (List.range (before.length + 1)).map Call.moduleShutdown) := by
  have hstart : ({ modules := modules } : ModuleManagerImpl ε).start = (.error e, {
      modules := modules
      nextPhase := .postInit
      calls := (List.range modules.length).map (Call.moduleInit · true) ++
        ((List.range before.length).map (Call.modulePostInit · true) ++
          [.modulePostInit before.length false] ++
          (List.range (before.length + 1)).map Call.moduleShutdown) }) := by
    simp only [ModuleManagerImpl.start, ModuleManagerImpl.doModulesPhase,
      ModuleManagerImpl.initModules, ModuleManagerImpl.postInitModules,
      ModuleManagerImpl.initPhase, ModuleManagerImpl.addCalls, callFrom_of_ok 0 hinit,
      List.nil_append, List.range_eq_range']
    rw [hmodules, callFrom_append 0 hpost hfailed]
    simp only [Nat.zero_add, List.append_assoc]
  rw [life, hstart]
  rfl

/-- A failed first phase does so as well, with the failed one among them. -/
theorem life_of_init (hmodules : modules = before ++ module :: after)
    (hinit : ∀ module ∈ before, module.moduleInit = .ok ())
    (hfailed : module.moduleInit = .error e) (reached : Bool) :
    life modules reached = (List.range before.length).map (Call.moduleInit · true) ++
      [.moduleInit before.length false] ++
      (List.range (before.length + 1)).map Call.moduleShutdown := by
  have hstart : ({ modules := modules } : ModuleManagerImpl ε).start = (.error e, {
      modules := modules
      calls := (List.range before.length).map (Call.moduleInit · true) ++
        [.moduleInit before.length false] ++
        (List.range (before.length + 1)).map Call.moduleShutdown }) := by
    simp only [ModuleManagerImpl.start, ModuleManagerImpl.doModulesPhase,
      ModuleManagerImpl.initModules, ModuleManagerImpl.initPhase, ModuleManagerImpl.addCalls,
      List.nil_append, List.range_eq_range']
    rw [hmodules, callFrom_append 0 hinit hfailed]
    simp only [Nat.zero_add]
  rw [life, hstart]
  rfl

/-- The modules behind the one that fails the second phase are left out. -/
theorem shutdown_once_of_postInit (hmodules : modules = before ++ module :: after)
    (hinit : ∀ module ∈ modules, module.moduleInit = .ok ())
    (hpost : ∀ module ∈ before, module.modulePostInit = .ok ())
    (hfailed : module.modulePostInit = .error e) (reached : Bool) :
    ShutdownOnce (life modules reached) ↔ after = [] := by
  have hcount : ∀ index, (life modules reached).count (.moduleShutdown index) =
      if index < before.length + 1 then 1 else 0 := by
    intro index
    rw [life_of_postInit hmodules hinit hpost hfailed, List.count_append, List.count_append,
      List.count_append, count_shutdowns, count_shutdown_of_ne _ (by simp),
      count_shutdown_of_ne _ (by simp), List.count_eq_zero.2 (by simp)]
    simp
  have hmem : ∀ index, .moduleInit index true ∈ life modules reached ↔
      index < modules.length := by
    intro index
    rw [life_of_postInit hmodules hinit hpost hfailed]
    simp
  have hlength : modules.length = before.length + 1 + after.length := by
    rw [hmodules, List.length_append, List.length_cons]
    omega
  constructor
  · intro h
    have hnext := h (before.length + 1)
    rw [hcount, if_neg (Nat.lt_irrefl _)] at hnext
    by_contra hne
    have hpos := List.length_pos_iff.2 hne
    rw [if_pos ((hmem _).2 (by omega))] at hnext
    cases hnext
  · rintro hafter index
    rw [hafter, List.length_nil, Nat.add_zero] at hlength
    rw [hcount, ← hlength]
    exact if_congr (hmem index).symm rfl rfl

end Life

/-- **The modules that have been initialized are shut down once, and no others**, if and only if
every one is initialized and none but the last fails the second phase. -/
theorem shutdown_once_iff (modules : List (Module ε)) (reached : Bool) :
    ShutdownOnce (life modules reached) ↔
      (∀ module ∈ modules, module.moduleInit = .ok ()) ∧
        ∀ module ∈ modules.dropLast, module.modulePostInit = .ok () := by
  rcases first_failure Module.moduleInit modules with
    hinit | ⟨before, module, after, e, hmodules, hinit, hfailed⟩
  · rcases first_failure Module.modulePostInit modules with
      hpost | ⟨before, module, after, e, hmodules, hpost, hfailed⟩
    · refine iff_of_true (fun index => ?_)
        ⟨hinit, fun module h => hpost module (List.dropLast_subset modules h)⟩
      rw [life_of_ok hinit hpost, List.count_append, List.count_append, count_shutdowns,
        count_shutdown_of_ne _ (by simp), count_shutdown_of_ne _ (by simp)]
      simp
    · refine (shutdown_once_of_postInit hmodules hinit hpost hfailed reached).trans ?_
      constructor
      · intro hafter
        refine ⟨hinit, ?_⟩
        rw [hmodules, hafter, List.dropLast_append_cons, List.dropLast_singleton, List.append_nil]
        exact hpost
      · rintro ⟨-, hlast⟩
        by_contra hne
        have hmem : module ∈ modules.dropLast := by
          rw [hmodules, List.dropLast_append_cons, List.dropLast_cons_of_ne_nil hne]
          simp
        cases hfailed.symm.trans (hlast module hmem)
  · refine iff_of_false (fun h => ?_) fun h => ?_
    · -- the module that has failed is shut down
      have hcount := h before.length
      rw [life_of_init hmodules hinit hfailed, List.count_append, count_shutdowns,
        if_pos (Nat.lt_succ_self _), if_neg (by simp)] at hcount
      omega
    · have hok := h.1 module (hmodules ▸ by simp)
      cases hfailed.symm.trans hok

/-- A module that fails its `moduleInit` is shut down; and where the first of two fails its
`modulePostInit`, the second one never is. -/
theorem shutdown_not_once :
    ¬ ShutdownOnce (life [Module.mk (.error "init") (.ok ())] true) ∧
      ¬ ShutdownOnce (life [Module.mk (.ok ()) (.error "post init"), ⟨.ok (), .ok ()⟩] true) := by
  refine ⟨fun h => ?_, fun h => ?_⟩
  · exact absurd (h 0) (by decide)
  · exact absurd (h 1) (by decide)

end MyEngine.Modules
