import MyEngine.App.Application
import MyEngine.Runtime.KernelRuntime

/-!
# App — ApplicationShutdown

`application_impl.cpp`: the application thread from `stop` to the end of the shutdown, beside the
runtime thread and the coroutine that shuts the services down.

* `ServicesShutdown`: `shutdownServices`, from one suspension to the next.
* `step`: a call of the application, a part of one, or a step of the runtime thread.
* `shutdown_sound`: as long as the runtime does not complete before the services, and is not asked
  for its state while it completes, the application ends behind all services.
-/

namespace MyEngine.App

open MyEngine.Runtime MyEngine.Runs

/-! ### The coroutine of the services -/

/-- A task that a service returns. -/
inductive Job (ι : Type) where
  | shutdownService (service : ι)
  | disposeAsync (service : ι)
  deriving DecidableEq

/-- What `shutdownServices` awaits: one task, or `whenAll` of some. -/
inductive Stage (ι : Type) where
  | dependent (service : ι)
  | independent (services : List ι)
  | dispose (services : List ι)
  deriving DecidableEq

namespace Stage

variable {ι : Type}

def jobs : Stage ι → List (Job ι)
  | .dependent service    => [.shutdownService service]
  | .independent services => services.map .shutdownService
  | .dispose services     => services.map .disposeAsync

/-- The stages, of the two sequences `makeShutdownOrderedServiceList` returns and the services that
are disposed. -/
def all (orderedDependentServices independentServices disposables : List ι) : List (Stage ι) :=
  orderedDependentServices.map .dependent ++ [.independent independentServices,
    .dispose disposables]

end Stage

/-- Where `shutdownServices` is. -/
inductive Place (ι : Type) where
  | notStarted
  | awaiting (stage : Stage ι) (rest : List (Stage ι))
  | ready (succeeded : Bool)
  deriving DecidableEq

structure ServicesShutdown (ι : Type) where
  stages : List (Stage ι)
  place : Place ι := .notStarted
  /-- The tasks that are ready, and if they have succeeded. -/
  settled : List (Job ι × Bool) := []
  deriving DecidableEq

namespace ServicesShutdown

variable {ι : Type} [DecidableEq ι]

/-- The coroutine goes on to its next suspension. -/
def enter (w : ServicesShutdown ι) : List (Stage ι) → ServicesShutdown ι
  | []            => { w with place := .ready true }
  | stage :: rest => { w with place := .awaiting stage rest }

def isReady (w : ServicesShutdown ι) : Bool :=
  match w.place with
  | .ready _ => true
  | _        => false

def isSettled (w : ServicesShutdown ι) (job : Job ι) : Bool :=
  w.settled.any fun entry => entry.1 = job

/-- `co_await`, once what it waits for is ready; only a single task can fail it. -/
def resume (w : ServicesShutdown ι) : Option (ServicesShutdown ι) :=
  match w.place with
  | .awaiting stage rest =>
      if stage.jobs.all w.isSettled then
        match stage with
        | .dependent service =>
            if (.shutdownService service, false) ∈ w.settled then
              some { w with place := .ready false }
            else some (w.enter rest)
        | _                  => some (w.enter rest)
      else none
  | _ => none

end ServicesShutdown

/-! ### The application -/

/-- Where the application thread is in `step`. -/
inductive StepFrame where
  /-- In `m_appWorkQueue->poll`. -/
  | polling (lastAppState : AppState)
  /-- In `shutdownServicesAndRuntime`, before the runtime's shutdown. -/
  | runtimeShutdown
  /-- Behind it. -/
  | servicesShutdown
  /-- In `shutdownServices`, or behind it. -/
  | leaving
  deriving DecidableEq, Repr

structure Application (H ι : Type) where
  appState : AppState := .notStarted
  runtime : KernelRuntimeImpl H
  services : ServicesShutdown ι
  frame : Option StepFrame := none
  /-- The runtime states `step` has read in `RuntimeShutdownProcessed`, with the readiness of the
  services' task. -/
  readings : List (RuntimeState × Bool) := []
  /-- The service provider and the modules are gone. -/
  destroyed : Bool := false

/-- `resumed` is the coroutine on the application thread, `settled` a task on any thread. -/
inductive Action (H ι : Type) where
  | startup (state : AppState)
  | stop
  | step
  | polled
  | runtimeShutdown
  | shutdownServices
  | leave
  | resumed
  | settled (job : Job ι) (succeeded : Bool)
  | runtime (a : Runtime.Action H)

/-- The steps of the runtime thread: its loop calls `poll`, and `shutdownStep` through it. -/
def RuntimeThread {H : Type} : Runtime.Action H → Bool
  | .setHandleAsInternal _ | .poll | .polled _ | .shutdownStarted _ | .completed => true
  | _ => false

namespace Application

variable {H ι : Type} [DecidableEq H] [DecidableEq ι]

/-- The constructor has bound the runtime to its thread. -/
def create (async : H) (stages : List (Stage ι)) : Application H ι where
  runtime := ({} : KernelRuntimeImpl H).bindToCurrentThread async
  services := { stages := stages }

/-- The branches of `step`, behind its `poll`. -/
def polled (s : Application H ι) (lastAppState : AppState) : Application H ι :=
  match lastAppState with
  | .shutdownRequested => { s with appState := .gameShutdownProcessed, frame := none }
  | .gameShutdownProcessed =>
      { s with appState := .runtimeShutdownProcessed, frame := some .runtimeShutdown }
  | .runtimeShutdownProcessed =>
      let runtimeState := s.runtime.state
      let s := { s with
        readings := (runtimeState, s.services.isReady) :: s.readings
        frame := none }
      if runtimeState = .shutdownCompleted then
        { s with appState := .shutdownCompleted, destroyed := true }
      else s
  | _ => { s with frame := none }

def step (s : Application H ι) : Action H ι → Option (Application H ι)
  | .startup state =>
      if (s.appState = .notStarted ∧ s.frame = none) ∧ (state = .active ∨ state = .invalid) then
        some { s with appState := state }
      else none
  | .stop => some { s with appState := s.appState.stop }
  | .step =>
      if s.appState = .notStarted ∨ s.frame ≠ none then none
      else if s.appState = .shutdownCompleted then some s
      else some { s with frame := some (.polling s.appState) }
  | .polled =>
      match s.frame with
      | some (.polling lastAppState) => some (s.polled lastAppState)
      | _                            => none
  | .runtimeShutdown =>
      if s.frame = some .runtimeShutdown then
        some { s with runtime := s.runtime.shutdown, frame := some .servicesShutdown }
      else none
  | .shutdownServices =>
      if s.frame = some .servicesShutdown then
        some { s with services := s.services.enter s.services.stages, frame := some .leaving }
      else none
  | .leave => if s.frame = some .leaving then some { s with frame := none } else none
  | .resumed =>
      match s.frame with
      | some (.polling _) | some .leaving =>
          s.services.resume.map fun services => { s with services := services }
      | _ => none
  | .settled job succeeded =>
      match s.services.place with
      | .awaiting stage _ =>
          if job ∈ stage.jobs ∧ ¬ s.services.isSettled job then
            let settled := (job, succeeded) :: s.services.settled
            some { s with services := { s.services with settled := settled } }
          else none
      | _ => none
  | .runtime a =>
      if RuntimeThread a then
        (Runtime.step s.runtime a).map fun runtime => { s with runtime := runtime }
      else none

end Application

/-! ### The services -/

namespace ServicesShutdown

variable {ι : Type} [DecidableEq ι] {w w' : ServicesShutdown ι}

/-- All tasks of a stage are ready. -/
def Finished (w : ServicesShutdown ι) (stage : Stage ι) : Prop :=
  ∀ job ∈ stage.jobs, w.isSettled job = true

/-- The stages before the one that is awaited are finished. -/
def Inv (w : ServicesShutdown ι) : Prop :=
  match w.place with
  | .notStarted          => True
  | .awaiting stage rest =>
      ∃ done, w.stages = done ++ stage :: rest ∧ ∀ stage ∈ done, w.Finished stage
  | .ready _             => ∀ stage ∈ w.stages, w.Finished stage

/-- The coroutine is about to end with an error, before services that are still to come. -/
def Abandons (w : ServicesShutdown ι) : Prop :=
  match w.place with
  | .awaiting (.dependent service) rest =>
      (.shutdownService service, false) ∈ w.settled ∧ ∃ stage ∈ rest, stage.jobs ≠ []
  | _ => False

instance (w : ServicesShutdown ι) : Decidable w.Abandons :=
  match h : w.place with
  | .awaiting (.dependent service) rest =>
      decidable_of_iff ((.shutdownService service, false) ∈ w.settled ∧
        ∃ stage ∈ rest, stage.jobs ≠ []) (by rw [Abandons, h])
  | .awaiting (.independent _) _ | .awaiting (.dispose _) _ | .notStarted | .ready _ =>
      .isFalse (by rw [Abandons, h]; exact id)

theorem Inv.enter {done rest : List (Stage ι)} (hs : w.stages = done ++ rest)
    (hd : ∀ stage ∈ done, w.Finished stage) : (w.enter rest).Inv := by
  cases rest with
  | nil =>
      rw [List.append_nil] at hs
      intro stage hmem
      exact hd stage (hs ▸ hmem)
  | cons stage rest => exact ⟨done, hs, hd⟩

/-- The coroutine has been at an `await` whose tasks are ready. -/
theorem resume_eq_some (h : w.resume = some w') :
    ∃ stage rest, w.place = .awaiting stage rest ∧ w.Finished stage ∧
      (w' = w.enter rest ∨ w' = { w with place := .ready false } ∧
        ∃ service, stage = .dependent service ∧ (.shutdownService service, false) ∈ w.settled) := by
  rw [resume] at h
  split at h
  next stage rest hplace =>
    split at h
    next hall =>
      refine ⟨stage, rest, hplace, List.all_eq_true.mp hall, ?_⟩
      split at h
      next service =>
        split at h
        next hf => exact .inr ⟨(Option.some.inj h).symm, service, rfl, hf⟩
        next => exact .inl (Option.some.inj h).symm
      next => exact .inl (Option.some.inj h).symm
    next => cases h
  next => cases h

theorem Inv.resume (h : w.Inv) (ha : ¬ w.Abandons) (hr : w.resume = some w') : w'.Inv := by
  obtain ⟨stage, rest, hplace, hfin, hw⟩ := resume_eq_some hr
  rw [Inv, hplace] at h
  obtain ⟨done, hs, hd⟩ := h
  have hd' : ∀ x ∈ done ++ [stage], w.Finished x := by
    intro x hx
    rcases List.mem_append.mp hx with hx | hx
    · exact hd x hx
    · exact List.mem_singleton.mp hx ▸ hfin
  obtain rfl | ⟨rfl, service, rfl, hf⟩ := hw
  · have hstages : w.stages = (done ++ [stage]) ++ rest := by rw [hs, List.append_assoc]; rfl
    exact Inv.enter hstages hd'
  · -- what is abandoned has nothing to wait for
    rw [Abandons, hplace] at ha
    intro x hx
    rw [hs] at hx
    rcases List.mem_append.mp hx with hx | hx
    · exact hd x hx
    · rcases List.mem_cons.mp hx with rfl | hx
      · exact hfin
      · have hjobs : x.jobs = [] := by
          by_contra hne
          exact ha ⟨hf, x, hx, hne⟩
        intro job hjob
        rw [hjobs] at hjob
        cases hjob

theorem Inv.settle {job : Job ι} {succeeded : Bool} (h : w.Inv) :
    ({ w with settled := (job, succeeded) :: w.settled } : ServicesShutdown ι).Inv := by
  have hmono : ∀ stage, w.Finished stage →
      Finished { w with settled := (job, succeeded) :: w.settled } stage := by
    intro stage hf other ho
    rw [isSettled, List.any_cons, Bool.or_eq_true]
    exact .inr (hf other ho)
  rw [Inv] at h ⊢
  cases hplace : w.place with
  | notStarted => trivial
  | awaiting stage rest =>
      rw [hplace] at h
      obtain ⟨done, hs, hd⟩ := h
      exact ⟨done, hs, fun x hx => hmono x (hd x hx)⟩
  | ready succeeded =>
      rw [hplace] at h
      exact fun x hx => hmono x (h x hx)

omit [DecidableEq ι] in
theorem enter_stages (rest : List (Stage ι)) : (w.enter rest).stages = w.stages := by
  cases rest <;> rfl

theorem resume_stages (h : w.resume = some w') : w'.stages = w.stages := by
  obtain ⟨_, _, _, _, rfl | ⟨rfl, _⟩⟩ := resume_eq_some h
  · exact enter_stages _
  · rfl

/-- A task that is ready is not at an `await`. -/
theorem resume_of_isReady (h : w.isReady = true) : w.resume = none := by
  rw [isReady] at h
  rw [resume]
  split at h
  next hplace => rw [hplace]
  next => cases h

end ServicesShutdown

/-! ### The runtime thread -/

section RuntimeThread
variable {H : Type} [DecidableEq H] {r r' : KernelRuntimeImpl H} {a : Runtime.Action H}

/-- The `shutdownStep` of a `poll` decides to complete the shutdown. -/
def Completes (r : KernelRuntimeImpl H) : Runtime.Action H → Prop
  | .polled answers => r.state = .shutdownProcessed ∧ r.frames.head? = some .uvRun ∧
      r.canCompleteShutdown answers = true
  | _ => False

instance (r : KernelRuntimeImpl H) (a : Runtime.Action H) : Decidable (Completes r a) :=
  match a with
  | .polled _ => inferInstanceAs (Decidable (_ ∧ _))
  | .bindToCurrentThread _ | .setHandleAsInternal _ | .poll | .shutdown | .shutdownStarted _ |
    .shutdownStep _ _ | .completed => inferInstanceAs (Decidable False)

/-- The runtime is completing its shutdown, or has completed it. -/
def Completing (r : KernelRuntimeImpl H) : Prop :=
  3 ≤ r.state.rank ∨ .completeShutdown ∈ r.frames

/-- The runtime thread moves the state forwards, and completes the shutdown when a `shutdownStep`
has decided so. -/
structure Advanced (r r' : KernelRuntimeImpl H) (a : Runtime.Action H) : Prop where
  rank : r.state.rank ≤ r'.state.rank
  completing : Completing r' → Completing r ∨ Completes r a

theorem Advanced.of_eq (hs : r'.state = r.state)
    (hf : .completeShutdown ∈ r'.frames → .completeShutdown ∈ r.frames) : Advanced r r' a := by
  refine ⟨hs ▸ Nat.le_refl _, fun h => .inl ?_⟩
  rw [Completing, hs] at h
  exact h.imp_right hf

theorem advanced (ha : RuntimeThread a = true) (hs : Runtime.step r a = some r') :
    Advanced r r' a := by
  cases a with
  | setHandleAsInternal handle =>
      obtain rfl := Option.some.inj hs
      exact .of_eq rfl id
  | shutdownStarted now =>
      obtain rfl := Option.some.inj hs
      exact .of_eq rfl id
  | poll =>
      simp only [Runtime.step, KernelRuntimeImpl.poll] at hs
      split at hs
      next r₁ hpoll =>
        obtain rfl := Option.some.inj hs
        split at hpoll
        · obtain rfl := Except.ok.inj hpoll
          exact .of_eq rfl fun h => (List.mem_cons.mp h).resolve_left fun hp => by cases hp
        · cases hpoll
      next =>
        obtain rfl := Option.some.inj hs
        exact .of_eq rfl id
  | polled answers =>
      simp only [Runtime.step] at hs
      split at hs
      next frames hframes =>
        obtain rfl := Option.some.inj hs
        have htail : .completeShutdown ∈ frames → .completeShutdown ∈ r.frames := fun h => by
          rw [hframes]
          exact List.mem_cons_of_mem _ h
        rw [KernelRuntimeImpl.polled]
        split
        next hstate =>
          change r.state = .shutdownProcessed at hstate
          rw [KernelRuntimeImpl.shutdownStep, if_neg (not_not_intro hstate)]
          split
          next hcan =>
            refine ⟨?_, fun _ => .inr ⟨hstate, by rw [hframes]; rfl, hcan⟩⟩
            rw [hstate]
            exact Nat.le_succ _
          next =>
            split
            · exact .of_eq rfl htail
            · exact .of_eq rfl htail
        next => exact .of_eq rfl htail
      next => cases hs
  | completed =>
      simp only [Runtime.step] at hs
      split at hs
      next frames hframes =>
        obtain rfl := Option.some.inj hs
        exact ⟨r.state.rank_le, fun _ => .inl (.inr (hframes ▸ List.mem_cons_self))⟩
      next => cases hs
  | bindToCurrentThread _ | shutdown | shutdownStep _ _ => cases ha

end RuntimeThread

/-! ### Runs of the application -/

section Runs
variable {H ι : Type} [DecidableEq H] [DecidableEq ι] {s s' : Application H ι} {a : Action H ι}
  {stages : List (Stage ι)}

/-- The application behaves: the runtime decides to complete only when the services are ready,
`step` does not ask for its state while it completes, and no service that others come behind fails
its shutdown. -/
def Meets (s : Application H ι) : Action H ι → Prop
  | .runtime a => Completes s.runtime a → s.services.isReady = true
  | .polled    => s.frame = some (.polling .runtimeShutdownProcessed) →
      s.runtime.state ≠ .shutdownNeedCompletion
  | .resumed   => ¬ s.services.Abandons
  | _          => True

instance (s : Application H ι) (a : Action H ι) : Decidable (Meets s a) :=
  match a with
  | .runtime _ | .polled => inferInstanceAs (Decidable (_ → _))
  | .resumed => inferInstanceAs (Decidable (¬ _))
  | .startup _ | .stop | .step | .runtimeShutdown | .shutdownServices | .leave | .settled _ _ =>
      inferInstanceAs (Decidable True)

/-- What the application promises of its shutdown. -/
structure Sound (s : Application H ι) : Prop where
  readings : ∀ state ready, (state, ready) ∈ s.readings →
    (state = .shutdownProcessed ∨ state = .shutdownCompleted) ∧
      (state = .shutdownCompleted → ready = true)
  destroyed : s.destroyed = true →
    s.services.isReady = true ∧ ∀ stage ∈ s.services.stages, s.services.Finished stage

/-- Where the application thread can be in a state; `shut` is that the runtime has been shut down,
and `started` that the services' shutdown has been. -/
structure Placed (appState : AppState) (frame : Option StepFrame) (shut started : Prop) : Prop where
  polling : ∀ lastAppState, frame = some (.polling lastAppState) →
    lastAppState = appState ∨ lastAppState = .active
  within : frame = some .runtimeShutdown ∨ frame = some .servicesShutdown ∨
    frame = some .leaving → appState = .runtimeShutdownProcessed
  shut : appState = .runtimeShutdownProcessed → frame = some .runtimeShutdown ∨ shut
  started : started → (appState = .runtimeShutdownProcessed ∨ appState = .shutdownCompleted) ∧
    frame ≠ some .runtimeShutdown ∧ frame ≠ some .servicesShutdown

/-- The invariant. -/
structure Inv (stages : List (Stage ι)) (s : Application H ι) : Prop where
  stages : s.services.stages = stages
  placed : Placed s.appState s.frame (2 ≤ s.runtime.state.rank) (s.services.place ≠ .notStarted)
  initialized : 1 ≤ s.runtime.state.rank
  completing : Completing s.runtime → s.services.isReady = true
  services : s.services.Inv
  readings : ∀ state ready, (state, ready) ∈ s.readings →
    (state = .shutdownProcessed ∨ state = .shutdownCompleted) ∧
      (state = .shutdownCompleted → ready = true)
  destroyed : s.destroyed = true → s.services.isReady = true

omit [DecidableEq H] in
theorem Inv.sound (h : Inv stages s) : Sound s := by
  refine ⟨h.readings, fun hd => ⟨h.destroyed hd, ?_⟩⟩
  have hready := h.destroyed hd
  have hinv := h.services
  rw [ServicesShutdown.isReady] at hready
  split at hready
  next succeeded hplace =>
    rw [ServicesShutdown.Inv, hplace] at hinv
    exact hinv
  next => cases hready

omit [DecidableEq H] in
theorem shutdown_rank (r : KernelRuntimeImpl H) (h : 1 ≤ r.state.rank) :
    2 ≤ r.shutdown.state.rank ∧ (Completing r.shutdown → Completing r) := by
  rw [KernelRuntimeImpl.shutdown]
  split
  next hne =>
    refine ⟨?_, id⟩
    generalize r.state = state at h hne
    cases state with
    | notInitialized => cases h
    | operable => exact absurd rfl hne
    | shutdownProcessed | shutdownNeedCompletion | shutdownCompleted => decide
  next =>
    have hrank : ¬ 3 ≤ RuntimeState.shutdownProcessed.rank := by decide
    exact ⟨Nat.le_refl _, fun hc => .inr (hc.resolve_left hrank)⟩

namespace Placed
variable {appState : AppState} {frame : Option StepFrame} {shut started : Prop}

/-- The application thread is outside of `step`, or on its way out. -/
theorem idle (h : Placed appState frame shut started) {lastAppState : AppState}
    (hf : frame = some (.polling lastAppState)) : Placed appState none shut started where
  polling := nofun
  within := nofun
  shut hs := .inr ((h.shut hs).resolve_left fun hr => nomatch hf.symm.trans hr)
  started hs := ⟨(h.started hs).1, nofun, nofun⟩

/-- Only `Active` is left while `poll` runs. -/
theorem last_eq (h : Placed appState (some (.polling frame')) shut started)
    (hne : frame' ≠ .active) : frame' = appState :=
  (h.polling _ rfl).resolve_right hne

theorem stop (h : Placed appState frame shut started) :
    Placed appState.stop frame shut started := by
  by_cases ha : appState = .active
  · subst ha
    refine ⟨fun last hf => .inr ?_, fun hf => absurd (h.within hf) nofun, nofun, fun hs => ?_⟩
    · rcases h.polling last hf with rfl | rfl
      all_goals rfl
    · rcases (h.started hs).1 with he | he
      all_goals cases he
  · rwa [AppState.stop, if_neg ha]

end Placed

/-- The branch behind `poll`. -/
theorem Inv.polled (h : Inv stages s) {lastAppState : AppState}
    (hf : s.frame = some (.polling lastAppState)) (hm : Meets s .polled) :
    Inv stages (s.polled lastAppState) := by
  have hidle := h.placed.idle hf
  have hlast : lastAppState ≠ .active → lastAppState = s.appState := fun hne =>
    Placed.last_eq (hf ▸ h.placed) hne
  cases lastAppState with
  | shutdownRequested =>
      refine { h with placed := ⟨nofun, nofun, nofun, fun hs => ?_⟩ }
      rcases (hidle.started hs).1 with he | he
      all_goals cases (hlast nofun).trans he
  | gameShutdownProcessed =>
      refine { h with placed := ⟨nofun, fun _ => rfl, fun _ => .inl rfl, fun hs => ?_⟩ }
      rcases (hidle.started hs).1 with he | he
      all_goals cases (hlast nofun).trans he
  | runtimeShutdownProcessed =>
      have hrank := (hidle.shut (hlast nofun).symm).resolve_left nofun
      have hne := hm hf
      have hready := h.completing
      have hread : ∀ state ready, (state, ready) ∈
          (s.runtime.state, s.services.isReady) :: s.readings →
            (state = .shutdownProcessed ∨ state = .shutdownCompleted) ∧
              (state = .shutdownCompleted → ready = true) := by
        intro state ready hmem
        rcases List.mem_cons.mp hmem with he | hmem
        · obtain ⟨rfl, rfl⟩ := Prod.mk.inj he
          refine ⟨?_, fun hc => hready (.inl (hc ▸ by decide))⟩
          revert hrank hne
          cases s.runtime.state <;> decide
        · exact h.readings state ready hmem
      rw [Application.polled]
      split
      next hcompleted =>
        change s.runtime.state = .shutdownCompleted at hcompleted
        have hc : s.services.isReady = true := hready (.inl (hcompleted ▸ by decide))
        exact { h with
          placed := ⟨nofun, nofun, nofun, fun _ => ⟨.inr rfl, nofun, nofun⟩⟩
          readings := hread
          destroyed := fun _ => hc }
      next => exact { h with placed := hidle, readings := hread }
  | notStarted | initializing | invalid | active | shutdownCompleted =>
      exact { h with placed := hidle }

omit [DecidableEq H] in
/-- The coroutine goes on, or one of its tasks. -/
theorem Inv.withServices (h : Inv stages s) {services : ServicesShutdown ι}
    (hplace : services.place ≠ .notStarted → s.services.place ≠ .notStarted)
    (hready : s.services.isReady = true → services.isReady = true) (hi : services.Inv)
    (hs : services.stages = s.services.stages) : Inv stages { s with services := services } :=
  { h with
    stages := hs.trans h.stages
    placed := { h.placed with started := fun hs => h.placed.started (hplace hs) }
    completing := fun hc => hready (h.completing hc)
    services := hi
    destroyed := fun hd => hready (h.destroyed hd) }

omit [DecidableEq H] in
/-- The runtime is shut down, before the services are. -/
theorem Inv.runtimeShutdown (h : Inv stages s) (hf : s.frame = some .runtimeShutdown) :
    Inv stages { s with runtime := s.runtime.shutdown, frame := some .servicesShutdown } := by
  obtain ⟨hrank, hcompleting⟩ := shutdown_rank s.runtime h.initialized
  have hstate := h.placed.within (.inl hf)
  exact { h with
    placed := ⟨nofun, fun _ => hstate, fun _ => .inr hrank,
      fun hst => absurd hf (h.placed.started hst).2.1⟩
    initialized := Nat.le_of_succ_le hrank
    completing := fun hc => h.completing (hcompleting hc) }

omit [DecidableEq H] in
/-- The shutdown of the services is called, for the first time. -/
theorem Inv.shutdownServices (h : Inv stages s) (hf : s.frame = some .servicesShutdown) :
    Inv stages { s with
      services := s.services.enter s.services.stages, frame := some .leaving } := by
  have hstate := h.placed.within (.inr (.inl hf))
  have hplace : s.services.place = .notStarted := by
    by_contra hst
    exact (h.placed.started hst).2.2 hf
  have hready : s.services.isReady = true →
      (s.services.enter s.services.stages).isReady = true := fun hr => by
    rw [ServicesShutdown.isReady, hplace] at hr
    cases hr
  exact { h with
    stages := (ServicesShutdown.enter_stages _).trans h.stages
    placed := ⟨nofun, fun _ => hstate, fun hr => .inr ((h.placed.shut hr).resolve_left
      fun hf' => nomatch hf.symm.trans hf'), fun _ => ⟨.inl hstate, nofun, nofun⟩⟩
    completing := fun hc => hready (h.completing hc)
    services := .enter (List.nil_append _).symm nofun
    destroyed := fun hd => hready (h.destroyed hd) }

/-- Every action keeps the invariant, one case for each action. -/
theorem Inv.step (h : Inv stages s) (hm : Meets s a) (hs : s.step a = some s') : Inv stages s' := by
  cases a with
  | startup state =>
      simp only [Application.step] at hs
      split at hs
      next hstart =>
        obtain rfl := Option.some.inj hs
        refine { h with placed := ⟨fun last hf => ?_, fun hf => ?_, fun hr => ?_, fun hst => ?_⟩ }
        · cases hstart.1.2.symm.trans hf
        · cases hstart.1.1.symm.trans (h.placed.within hf)
        · obtain rfl | rfl := hstart.2
          all_goals cases hr
        · rcases (h.placed.started hst).1 with he | he
          all_goals cases hstart.1.1.symm.trans he
      next => cases hs
  | stop =>
      obtain rfl := Option.some.inj hs
      exact { h with placed := h.placed.stop }
  | step =>
      simp only [Application.step] at hs
      split at hs
      next => cases hs
      next hframe =>
        have hnone : s.frame = none := not_not.mp fun hne => hframe (.inr hne)
        split at hs
        next =>
          obtain rfl := Option.some.inj hs
          exact h
        next =>
          obtain rfl := Option.some.inj hs
          refine { h with placed := ⟨fun last hf => .inl ?_, nofun, fun hr => ?_, fun hst => ?_⟩ }
          · exact (StepFrame.polling.inj (Option.some.inj hf)).symm
          · exact .inr ((h.placed.shut hr).resolve_left fun hf => nomatch hnone.symm.trans hf)
          · exact ⟨(h.placed.started hst).1, nofun, nofun⟩
  | polled =>
      simp only [Application.step] at hs
      split at hs
      next lastAppState hf =>
        obtain rfl := Option.some.inj hs
        exact h.polled hf hm
      next => cases hs
  | runtimeShutdown =>
      simp only [Application.step] at hs
      split at hs
      next hf =>
        obtain rfl := Option.some.inj hs
        exact h.runtimeShutdown hf
      next => cases hs
  | shutdownServices =>
      simp only [Application.step] at hs
      split at hs
      next hf =>
        obtain rfl := Option.some.inj hs
        exact h.shutdownServices hf
      next => cases hs
  | leave =>
      simp only [Application.step] at hs
      split at hs
      next hf =>
        obtain rfl := Option.some.inj hs
        exact { h with placed := ⟨nofun, nofun, fun hr => .inr ((h.placed.shut hr).resolve_left
          fun hf' => nomatch hf.symm.trans hf'), fun hst =>
            ⟨(h.placed.started hst).1, nofun, nofun⟩⟩ }
      next => cases hs
  | resumed =>
      have hres : s.services.resume.map (fun services => { s with services := services }) =
          some s' := by
        simp only [Application.step] at hs
        split at hs
        · exact hs
        · exact hs
        · cases hs
      obtain ⟨services, hr, rfl⟩ := Option.map_eq_some_iff.mp hres
      refine h.withServices (fun _ hplace => ?_) (fun hready => ?_) (h.services.resume hm hr)
        (ServicesShutdown.resume_stages hr)
      · obtain ⟨stage, rest, hp, -⟩ := ServicesShutdown.resume_eq_some hr
        cases hplace.symm.trans hp
      · cases (ServicesShutdown.resume_of_isReady hready).symm.trans hr
  | settled job succeeded =>
      simp only [Application.step] at hs
      split at hs
      next stage rest hplace =>
        split at hs
        · obtain rfl := Option.some.inj hs
          exact h.withServices id id h.services.settle rfl
        · cases hs
      next => cases hs
  | runtime a =>
      simp only [Application.step] at hs
      split at hs
      next ha =>
        obtain ⟨runtime, hr, rfl⟩ := Option.map_eq_some_iff.mp hs
        have hadv := advanced ha hr
        exact { h with
          placed := { h.placed with
            shut := fun hs => (h.placed.shut hs).imp_right fun hrank => hrank.trans hadv.rank }
          initialized := h.initialized.trans hadv.rank
          completing := fun hc => (hadv.completing hc).elim h.completing hm }
      next => cases hs

omit [DecidableEq H] in
theorem inv_create (async : H) (stages : List (Stage ι)) :
    Inv stages (Application.create async stages) where
  stages := rfl
  placed := ⟨nofun, nofun, nofun, fun h => absurd rfl h⟩
  initialized := Nat.le_refl _
  completing h := by
    have hrank : ¬ 3 ≤ RuntimeState.operable.rank := by decide
    cases h.resolve_left hrank
  services := trivial
  readings := nofun
  destroyed := nofun

/-- **The shutdown of the application.**  In every run in which the runtime decides to complete only
behind the services, `step` does not read its state while it completes, and no service that others
come behind fails its shutdown: `step` reads a state of a runtime that is shut down, the services'
task is ready when that is the last one, and the provider and the modules go when the shutdown of
every service is finished. -/
theorem shutdown_sound {async : H} (h : Steps Application.step Meets (.create async stages) s) :
    Sound s ∧ s.services.stages = stages := by
  have hinv : Inv stages s := h.invariant (P := Inv stages) Inv.step (inv_create async stages)
  exact ⟨hinv.sound, hinv.stages⟩

end Runs

/-! ### Two runs -/

/-- The work queue of the application, which refers to it; no task is alive. -/
def workQueueOnly : Answers ℕ where
  components := [{ hasWorks := false, refCounted := some { isExecutor := true, refsCount := 4 } }]
  handles := []
  aliveTasks := false
  now := 0

/-- The start, the stop, and two calls of `step`. -/
def untilShutdown : List (Action ℕ ℕ) :=
  [.startup .active, .runtime .poll, .stop, .step, .polled, .step, .polled, .runtimeShutdown]

/-- The runtime completes behind the services. -/
def inOrder : List (Action ℕ ℕ) :=
  untilShutdown ++ [.shutdownServices, .leave, .settled (.shutdownService 0) true, .step, .resumed,
    .settled (.shutdownService 1) true, .resumed, .resumed, .polled,
    .runtime (.polled workQueueOnly), .runtime .completed, .step, .polled]

theorem shutdown_sound_inOrder : ∃ s,
    exec Application.step (.create 0 (Stage.all [0] [1] [])) inOrder = some s ∧
      s.destroyed = true ∧ Sound s := by
  have hmeets : Allowed Application.step Meets (.create 0 (Stage.all [0] [1] [])) inOrder := by
    decide
  exact ⟨_, rfl, rfl, (shutdown_sound (exec_steps hmeets rfl)).1⟩

/-- The runtime completes before the services' shutdown is called. -/
def tooEarly : List (Action ℕ ℕ) :=
  untilShutdown ++ [.runtime (.polled workQueueOnly), .runtime .completed, .shutdownServices,
    .leave, .step, .polled]

/-- The runtime is completing when `step` reads its state. -/
def between : List (Action ℕ ℕ) :=
  untilShutdown ++ [.shutdownServices, .leave, .settled (.shutdownService 0) true, .step, .resumed,
    .resumed, .polled, .step, .runtime (.polled workQueueOnly), .polled]

/-- The provider goes while a service is being shut down; and the state that `step` reads is none of
the two it asserts. -/
theorem shutdown_unsound :
    (∃ s, Steps Application.step Free (.create 0 (Stage.all [] [0] [])) s ∧
      s.readings = [(.shutdownCompleted, false)] ∧ s.destroyed = true ∧
      s.services.settled = [] ∧ ¬ Sound s) ∧
    ∃ s, Steps Application.step Free (.create 0 (Stage.all [] [0] [])) s ∧
      (RuntimeState.shutdownNeedCompletion, true) ∈ s.readings ∧ ¬ Sound s := by
  constructor
  · refine ⟨_, exec_steps (allowed_free tooEarly _) rfl, rfl, rfl, rfl, fun h => ?_⟩
    cases (h.destroyed rfl).1
  · refine ⟨_, exec_steps (allowed_free between _) rfl, List.mem_cons_self, fun h => ?_⟩
    obtain ⟨he | he, -⟩ := h.readings _ _ List.mem_cons_self
    all_goals cases he

end MyEngine.App
