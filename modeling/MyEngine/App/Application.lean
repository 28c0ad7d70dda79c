import MyEngine.Modules.ModuleManager
import MyEngine.Service.InitOrder

/-!
# App — Application

`application_impl.cpp`: the startup of the application, with the outcomes of its modules and
services, and the state it leaves.

* `initServicesInternal`: the services' stage; only the services with dependencies can fail it.
* `startupOnCurrentThread`: the four stages, and the scope guard behind them.
* `startup_state_iff`: the state tells whether the startup has succeeded exactly when no phase of
  the modules fails; the scope guard sees a failure of the services only.
-/

namespace MyEngine.App

open Modules Service

inductive AppState where
  | notStarted
  | initializing
  | invalid
  | active
  | shutdownRequested
  | gameShutdownProcessed
  | runtimeShutdownProcessed
  | shutdownCompleted
  deriving DecidableEq, Repr

namespace AppState

/-- `stop`. -/
def stop (state : AppState) : AppState := if state = .active then .shutdownRequested else state

/-- The states that `step` has a branch for: the application runs, or is shutting down. -/
def branches : List AppState :=
  [.active, .shutdownRequested, .gameShutdownProcessed, .runtimeShutdownProcessed]

/-- `stop` changes the state, or `step` has a branch for it. -/
def TreatedAsRunning (state : AppState) : Prop := state.stop ≠ state ∨ state ∈ branches

instance (state : AppState) : Decidable state.TreatedAsRunning :=
  inferInstanceAs (Decidable (_ ∨ _))

end AppState

/-! ### Services -/

variable {ι τ ε : Type} [DecidableEq ι] [DecidableEq τ]

/-- The services that `IServiceInitialization` finds, and what the tasks of each are settled with,
where it returns one. -/
structure ServiceProvider (ι τ ε : Type) extends Services ι τ where
  services : List ι
  preInitService : ι → Option (Except ε Unit)
  initService : ι → Option (Except ε Unit)

/-- The loop over the ordered services: an awaited task that is rejected ends it. -/
def awaitEach (getTask : ι → Option (Except ε Unit)) : List ι → Except ε Unit
  | []                  => .ok ()
  | service :: services =>
      match getTask service with
      | some (.error e) => .error e
      | _               => awaitEach getTask services

namespace ServiceProvider

/-- `initServicesInternal`.  The tasks of the independent services are only waited for. -/
def initServicesInternal (S : ServiceProvider ι τ ε) (sort : ListSort ι τ)
    (getTask : ι → Option (Except ε Unit)) : Except Failure (Except ε Unit) := do
  let (_, orderedDependentServices) ← takeOutServiceList S.toServices sort S.services
  return awaitEach getTask (orderedDependentServices.map (·.service))

def preInitServices (S : ServiceProvider ι τ ε) (sort : ListSort ι τ) :
    Except Failure (Except ε Unit) :=
  S.initServicesInternal sort S.preInitService

def initServices (S : ServiceProvider ι τ ε) (sort : ListSort ι τ) :
    Except Failure (Except ε Unit) :=
  S.initServicesInternal sort S.initService

end ServiceProvider

/-! ### Startup -/

structure ApplicationImpl (ε : Type) where
  appState : AppState := .notStarted
  moduleManager : ModuleManagerImpl ε

namespace ApplicationImpl

/-- `waitTaskAndCheckResult`, with what the task is settled with. -/
def waitTaskAndCheckResult (app : ApplicationImpl ε) (task : Except ε Unit) :
    Except ε Unit × ApplicationImpl ε :=
  match task with
  | .ok _    => (.ok (), app)
  | .error e => (.error e, { app with appState := .invalid })

def doModulesPhase (app : ApplicationImpl ε) (phase : ModulesPhase) :
    Except ε Unit × ApplicationImpl ε :=
  let (result, moduleManager) := app.moduleManager.doModulesPhase phase
  (result, { app with moduleManager := moduleManager })

/-- `startupServices`; the failures are those of the fatal checks. -/
def startupServices (app : ApplicationImpl ε) (S : ServiceProvider ι τ ε) (sort : ListSort ι τ) :
    Except Failure (Except ε Unit × ApplicationImpl ε) :=
  match app.doModulesPhase .init with
  | (.error e, app) => .ok (.error e, app)
  | (.ok _, app)    => do
      match app.waitTaskAndCheckResult (← S.preInitServices sort) with
      | (.error e, app) => .ok (.error e, app)
      | (.ok _, app)    =>
          match app.waitTaskAndCheckResult (← S.initServices sort) with
          | (.error e, app) => .ok (.error e, app)
          | (.ok _, app)    => .ok (app.doModulesPhase .postInit)

/-- `scope_on_leave` of `startupOnCurrentThread`. -/
def leaveStartup (app : ApplicationImpl ε) : ApplicationImpl ε :=
  if app.appState = .initializing then { app with appState := .active } else app

/-- `startupOnCurrentThread`, of an application that has not been started. -/
def startupOnCurrentThread (moduleManager : ModuleManagerImpl ε) (S : ServiceProvider ι τ ε)
    (sort : ListSort ι τ) : Except Failure (Except ε Unit × ApplicationImpl ε) := do
  let app : ApplicationImpl ε := { appState := .initializing, moduleManager := moduleManager }
  let (result, app) ← app.startupServices S sort
  return (result, app.leaveStartup)

end ApplicationImpl

/-! ### The stages -/

section Stages
variable {getTask : ι → Option (Except ε Unit)} {services : List ι} {S : ServiceProvider ι τ ε}
  {sort : ListSort ι τ} {m : ModuleManagerImpl ε}

omit [DecidableEq ι] in
theorem awaitEach_error_iff :
    (∃ e, awaitEach getTask services = .error e) ↔
      ∃ service ∈ services, ∃ e, getTask service = some (.error e) := by
  induction services with
  | nil => simp [awaitEach]
  | cons service services ih =>
      rw [List.exists_mem_cons_iff, ← ih, awaitEach]
      cases getTask service with
      | none => simp
      | some task =>
          cases task with
          | error e => simp
          | ok => simp

/-- A service with dependencies rejects one of its two tasks. -/
def ServiceProvider.Fails (S : ServiceProvider ι τ ε) (sort : ListSort ι τ) : Prop :=
  ∃ independent dependent, takeOutServiceList S.toServices sort S.services =
      .ok (independent, dependent) ∧
    ∃ service ∈ dependent.map (·.service), (∃ e, S.preInitService service = some (.error e)) ∨
      ∃ e, S.initService service = some (.error e)

/-- A phase that succeeds has called every module. -/
theorem initPhase_ok_iff (outcome : Module ε → Except ε Unit) (call : ℕ → Bool → Call)
    (next : ModulesPhase) :
    (m.initPhase outcome call next).1 = .ok () ↔ ∀ module ∈ m.modules, outcome module = .ok () := by
  rcases first_failure outcome m.modules with hall | ⟨before, module, after, e, hm, hb, hf⟩
  · rw [ModuleManagerImpl.initPhase, callFrom_of_ok 0 hall]
    exact iff_of_true rfl hall
  · rw [ModuleManagerImpl.initPhase, hm, callFrom_append 0 hb hf]
    refine iff_of_false (fun hok => by cases hok) fun hall => ?_
    have hmem : module ∈ before ++ module :: after :=
      List.mem_append_right _ List.mem_cons_self
    cases hf.symm.trans (hall module hmem)

theorem initPhase_modules (outcome : Module ε → Except ε Unit) (call : ℕ → Bool → Call)
    (next : ModulesPhase) : (m.initPhase outcome call next).2.modules = m.modules := by
  rw [ModuleManagerImpl.initPhase]
  split <;> rfl

/-- The services' stages end in order to fail when one of the tasks they await is rejected. -/
theorem initServicesInternal_eq {independent dependent : List (ServiceEntry ι τ)}
    (h : takeOutServiceList S.toServices sort S.services = .ok (independent, dependent)) :
    S.initServicesInternal sort getTask =
      .ok (awaitEach getTask (dependent.map (·.service))) := by
  rw [ServiceProvider.initServicesInternal, h]
  rfl

theorem fails_iff {independent dependent : List (ServiceEntry ι τ)}
    (h : takeOutServiceList S.toServices sort S.services = .ok (independent, dependent)) :
    S.Fails sort ↔ (∃ e, awaitEach S.preInitService (dependent.map (·.service)) = .error e) ∨
      ∃ e, awaitEach S.initService (dependent.map (·.service)) = .error e := by
  rw [awaitEach_error_iff, awaitEach_error_iff]
  constructor
  · rintro ⟨_, _, h', service, hmem, hfails⟩
    obtain ⟨rfl, rfl⟩ := Prod.mk.inj (Except.ok.inj (h.symm.trans h'))
    exact hfails.imp (⟨service, hmem, ·⟩) (⟨service, hmem, ·⟩)
  · rintro (⟨service, hmem, hfails⟩ | ⟨service, hmem, hfails⟩)
    · exact ⟨_, _, h, service, hmem, .inl hfails⟩
    · exact ⟨_, _, h, service, hmem, .inr hfails⟩

open ApplicationImpl

/-- How `startupServices` ends, and the state it leaves. -/
inductive Ended (m : ModuleManagerImpl ε) (S : ServiceProvider ι τ ε) (sort : ListSort ι τ)
    (result : Except ε Unit) (state : AppState) : Prop where
  | init (hm : ¬ ∀ module ∈ m.modules, module.moduleInit = .ok ()) (hr : result ≠ .ok ())
      (hs : state = .initializing)
  | services (hm : ∀ module ∈ m.modules, module.moduleInit = .ok ()) (hf : S.Fails sort)
      (hr : result ≠ .ok ()) (hs : state = .invalid)
  | postInit (hm : ∀ module ∈ m.modules, module.moduleInit = .ok ()) (hf : ¬ S.Fails sort)
      (hr : result = .ok () ↔ ∀ module ∈ m.modules, module.modulePostInit = .ok ())
      (hs : state = .initializing)

theorem startupServices_ended {app : ApplicationImpl ε} {result : Except ε Unit}
    (h : startupServices { appState := .initializing, moduleManager := m } S sort =
      .ok (result, app)) : Ended m S sort result app.appState := by
  have hinit := initPhase_ok_iff (m := m) Module.moduleInit .moduleInit .postInit
  have hmodules := initPhase_modules (m := m) Module.moduleInit .moduleInit .postInit
  rw [startupServices, doModulesPhase, ModuleManagerImpl.doModulesPhase,
    ModuleManagerImpl.initModules] at h
  revert h hinit hmodules
  generalize m.initPhase Module.moduleInit Call.moduleInit .postInit = phase
  obtain ⟨outcome, m₁⟩ := phase
  intro h hinit hmodules
  cases outcome with
  | error e =>
      obtain ⟨rfl, rfl⟩ := Prod.mk.inj (Except.ok.inj h)
      exact .init (fun hall => by cases hinit.mpr hall) (fun hok => by cases hok) rfl
  | ok =>
      have hall := hinit.mp rfl
      cases hlist : takeOutServiceList S.toServices sort S.services with
      | error failure =>
          simp only [ServiceProvider.preInitServices, ServiceProvider.initServicesInternal,
            hlist] at h
          cases h
      | ok lists =>
          obtain ⟨independent, dependent⟩ := lists
          have hfails := fails_iff hlist
          simp only [ServiceProvider.preInitServices, ServiceProvider.initServices,
            initServicesInternal_eq hlist] at h
          revert hfails h
          generalize awaitEach S.preInitService (dependent.map (·.service)) = preInit
          generalize awaitEach S.initService (dependent.map (·.service)) = init
          intro hfails h
          cases preInit with
          | error e =>
              obtain ⟨rfl, rfl⟩ := Prod.mk.inj (Except.ok.inj h)
              exact .services hall (hfails.mpr (.inl ⟨e, rfl⟩)) (fun hok => by cases hok) rfl
          | ok =>
              cases init with
              | error e =>
                  obtain ⟨rfl, rfl⟩ := Prod.mk.inj (Except.ok.inj h)
                  exact .services hall (hfails.mpr (.inr ⟨e, rfl⟩)) (fun hok => by cases hok) rfl
              | ok =>
                  obtain ⟨rfl, rfl⟩ := Prod.mk.inj (Except.ok.inj h)
                  refine .postInit hall (fun hf => ?_) ?_ rfl
                  · obtain ⟨e, he⟩ | ⟨e, he⟩ := hfails.mp hf
                    all_goals cases he
                  · rw [← hmodules]
                    exact initPhase_ok_iff Module.modulePostInit .modulePostInit .shutdown

end Stages

/-- What the state a startup leaves is to tell of its result. -/
def StateTells (result : Except ε Unit) (state : AppState) : Prop :=
  (state = .active ↔ result = .ok ()) ∧ (result ≠ .ok () → ¬ state.TreatedAsRunning)

/-- **The state behind the startup.**  Whatever the modules and the services answer, the state is
`Active` exactly when the startup has succeeded, and else one that is not treated as running, if and
only if the modules do not fail: neither in the first phase nor, where the services have not failed,
in the second one. -/
theorem startup_state_iff {moduleManager : ModuleManagerImpl ε} {S : ServiceProvider ι τ ε}
    {sort : ListSort ι τ} {result : Except ε Unit} {app : ApplicationImpl ε}
    (h : ApplicationImpl.startupOnCurrentThread moduleManager S sort = .ok (result, app)) :
    StateTells result app.appState ↔
      (∀ module ∈ moduleManager.modules, module.moduleInit = .ok ()) ∧
        (S.Fails sort ∨ ∀ module ∈ moduleManager.modules, module.modulePostInit = .ok ()) := by
  rw [ApplicationImpl.startupOnCurrentThread] at h
  cases hserv : ApplicationImpl.startupServices
      { appState := .initializing, moduleManager := moduleManager } S sort with
  | error failure =>
      rw [hserv] at h
      cases h
  | ok ended =>
      obtain ⟨result', app'⟩ := ended
      rw [hserv] at h
      obtain ⟨rfl, rfl⟩ := Prod.mk.inj (Except.ok.inj h)
      rw [ApplicationImpl.leaveStartup, StateTells]
      cases startupServices_ended hserv with
      | init hm hr hs =>
          rw [if_pos hs]
          exact iff_of_false (fun ht => hr (ht.1.mp rfl)) fun hc => hm hc.1
      | services hm hf hr hs =>
          rw [hs, if_neg nofun, hs]
          exact iff_of_true ⟨iff_of_false nofun hr, fun _ => by decide⟩ ⟨hm, .inl hf⟩
      | postInit hm hf hr hs =>
          rw [if_pos hs, and_iff_right hm, or_iff_right hf, ← hr]
          refine ⟨fun ht => ht.1.mp rfl, fun hok => ⟨iff_of_true rfl hok, fun hne => ?_⟩⟩
          exact absurd hok hne

/-- Services without dependencies, none of which returns a task. -/
def quietServices : ServiceProvider ℕ ℕ ℕ where
  is _ _ := false
  getServiceDependencies _ := []
  services := [0, 1]
  preInitService _ := none
  initService _ := none

theorem startup_state_succeeded : ∃ app : ApplicationImpl ℕ,
    ApplicationImpl.startupOnCurrentThread { modules := [⟨.ok (), .ok ()⟩] } quietServices
      (fun _ l => l) = .ok (.ok (), app) ∧ StateTells (.ok () : Except ℕ Unit) app.appState := by
  have h : ∃ app : ApplicationImpl ℕ, ApplicationImpl.startupOnCurrentThread
      { modules := [⟨.ok (), .ok ()⟩] } quietServices (fun _ l => l) = .ok (.ok (), app) := ⟨_, rfl⟩
  obtain ⟨app, h⟩ := h
  exact ⟨app, h, (startup_state_iff h).mpr ⟨by simp, .inr (by simp)⟩⟩

/-- A module that cannot be initialized: the startup returns its error and leaves the state
`Active`. -/
theorem startup_state_failed : ∃ app : ApplicationImpl ℕ,
    ApplicationImpl.startupOnCurrentThread { modules := [⟨.error 7, .ok ()⟩] } quietServices
      (fun _ l => l) = .ok (.error 7, app) ∧ app.appState = .active ∧
    ¬ StateTells (.error 7 : Except ℕ Unit) app.appState := by
  refine ⟨_, rfl, rfl, fun h => ?_⟩
  cases h.1.mp rfl

end MyEngine.App
