import Mathlib.Data.List.Basic
import Mathlib.Data.Int.Notation
import MyEngine.Support.Runs

/-!
# Runtime — KernelRuntime

`kernel_runtime_impl.cpp`: the states of the runtime and the steps of its shutdown.  The callbacks
that run inside `uv_run` are actions between `poll` and `polled`.

* `visitObjects`, `uvWalk`: what the two visitors of `shutdownStep` collect.
* `step`: one call of the runtime, or one return from inside of it.
* `shutdown_sound_iff`: when exactly `shutdownStep` decides as intended and no call moves the state
  backwards.
-/

namespace MyEngine.Runtime

open MyEngine.Runs

inductive RuntimeState where
  | notInitialized
  | operable
  | shutdownProcessed
  | shutdownNeedCompletion
  | shutdownCompleted
  deriving DecidableEq, Repr

/-- The place of a state in their order. -/
def RuntimeState.rank : RuntimeState → ℕ
  | .notInitialized         => 0
  | .operable               => 1
  | .shutdownProcessed      => 2
  | .shutdownNeedCompletion => 3
  | .shutdownCompleted      => 4

theorem RuntimeState.rank_le (state : RuntimeState) : state.rank ≤ 4 := by
  cases state <;> decide

/-! ### Runtime components -/

structure RefCounted where
  isExecutor : Bool
  refsCount : ℕ
  deriving DecidableEq, Repr

/-- What a component answers; not every one is counted. -/
structure Component where
  hasWorks : Bool
  refCounted : Option RefCounted
  deriving DecidableEq, Repr

/-- The visit itself holds a reference, and the runtime one to each executor. -/
def RefCounted.expectedRefsCount (refCounted : RefCounted) : ℕ :=
  if refCounted.isExecutor then 2 else 1

/-- The flags `shutdownStep` sets while it visits the components. -/
structure Visited where
  hasPendingWorks : Bool := false
  hasReferencedExecutors : Bool := false
  hasReferencedNonExecutors : Bool := false
  deriving DecidableEq, Repr

def Visited.visit (visited : Visited) (component : Component) : Visited :=
  if component.hasWorks then { visited with hasPendingWorks := true }
  else
    match component.refCounted with
    | none            => visited
    | some refCounted =>
        if refCounted.expectedRefsCount < refCounted.refsCount then
          if refCounted.isExecutor then { visited with hasReferencedExecutors := true }
          else { visited with hasReferencedNonExecutors := true }
        else visited

def visitObjects (components : List Component) : Visited := components.foldl Visited.visit {}

/-! ### libuv handles -/

variable {H : Type} [DecidableEq H]

/-- `walkState`: the handles `self` keeps as internal, and the pointer to `externalUvHandlesCount`
as an offset from it. -/
structure WalkState (H : Type) where
  internalHandles : List H
  handleCounter : ℕ

/-- The callback of `uv_walk`, on its argument and on `externalUvHandlesCount`. -/
def walkCallback (state : WalkState H × ℕ) (handle : H) : WalkState H × ℕ :=
  if handle ∈ state.1.internalHandles then state
  else
    -- `++handleCounter` moves the pointer; the number behind it is not written
    ({ state.1 with handleCounter := state.1.handleCounter + 1 }, state.2)

def uvWalk (handles : List H) (state : WalkState H × ℕ) : WalkState H × ℕ :=
  handles.foldl walkCallback state

/-! ### The runtime -/

/-- What `shutdownStep` asks for: the components, the handles of the loop,
`hasAliveTasksWithCapturedExecutor` and the clock in milliseconds. -/
structure Answers (H : Type) where
  components : List Component
  handles : List H
  aliveTasks : Bool
  now : ℤ

/-- What is under way on the runtime thread. -/
inductive Frame where
  | uvRun
  | completeShutdown
  deriving DecidableEq, Repr

structure KernelRuntimeImpl (H : Type) where
  state : RuntimeState := .notInitialized
  internalHandles : List H := []
  shutdownStartTime : ℤ := 0
  shutdownTooLongWarningShowed : Bool := false
  frames : List Frame := []

/-- The calls, and the returns of those that run callbacks. -/
inductive Action (H : Type) where
  | bindToCurrentThread (async : H)
  | setHandleAsInternal (handle : H)
  | poll
  | polled (answers : Answers H)
  | shutdown
  | shutdownStarted (now : ℤ)
  | shutdownStep (doCompleteShutdown : Bool) (answers : Answers H)
  | completed

namespace KernelRuntimeImpl

/-- The new runtime executor keeps the only internal handle. -/
def bindToCurrentThread (r : KernelRuntimeImpl H) (async : H) : KernelRuntimeImpl H :=
  { r with internalHandles := [async], state := .operable }

def setHandleAsInternal (r : KernelRuntimeImpl H) (handle : H) : KernelRuntimeImpl H :=
  { r with internalHandles := r.internalHandles ++ [handle] }

/-- `poll` to its `uv_run`, and what it returns where there is none. -/
def poll (r : KernelRuntimeImpl H) : Except Bool (KernelRuntimeImpl H) :=
  if r.state = .operable ∨ r.state = .shutdownProcessed then
    .ok { r with frames := .uvRun :: r.frames }
  else .error false

def shutdown (r : KernelRuntimeImpl H) : KernelRuntimeImpl H :=
  if r.state ≠ .operable then r else { r with state := .shutdownProcessed }

/-- What `shutdown` has the runtime executor do. -/
def shutdownStarted (r : KernelRuntimeImpl H) (now : ℤ) : KernelRuntimeImpl H :=
  { r with shutdownStartTime := now, shutdownTooLongWarningShowed := false }

def canCompleteShutdown (r : KernelRuntimeImpl H) (answers : Answers H) : Bool :=
  let visited := visitObjects answers.components
  let externalUvHandlesCount := (uvWalk answers.handles (⟨r.internalHandles, 0⟩, 0)).2
  let canCompleteShutdown := !(visited.hasPendingWorks || visited.hasReferencedExecutors ||
    visited.hasReferencedNonExecutors || decide (0 < externalUvHandlesCount))
  if !canCompleteShutdown && (!visited.hasPendingWorks && !visited.hasReferencedNonExecutors) then
    !answers.aliveTasks
  else canCompleteShutdown

/-- The answer, and the runtime at the return or at the start of `completeShutdown`. -/
def shutdownStep (r : KernelRuntimeImpl H) (doCompleteShutdown : Bool) (answers : Answers H) :
    Bool × KernelRuntimeImpl H :=
  if r.state ≠ .shutdownProcessed then (false, r)
  else if r.canCompleteShutdown answers then
    (false, { r with
      state := .shutdownNeedCompletion
      frames := if doCompleteShutdown then .completeShutdown :: r.frames else r.frames })
  else if 3 < (answers.now - r.shutdownStartTime).tdiv 1000 then
    (true, { r with shutdownTooLongWarningShowed := true })
  else (true, r)

/-- `poll` behind its `uv_run`. -/
def polled (r : KernelRuntimeImpl H) (answers : Answers H) : KernelRuntimeImpl H :=
  if r.state = .shutdownProcessed then (r.shutdownStep true answers).2 else r

end KernelRuntimeImpl

open KernelRuntimeImpl

def step (r : KernelRuntimeImpl H) : Action H → Option (KernelRuntimeImpl H)
  | .bindToCurrentThread async       => some (r.bindToCurrentThread async)
  | .setHandleAsInternal handle      => some (r.setHandleAsInternal handle)
  | .poll                            =>
      match r.poll with
      | .ok r    => some r
      | .error _ => some r
  | .polled answers                  =>
      match r.frames with
      | .uvRun :: frames => some ({ r with frames := frames }.polled answers)
      | _                => none
  | .shutdown                        => some r.shutdown
  | .shutdownStarted now             => some (r.shutdownStarted now)
  | .shutdownStep doComplete answers => some (r.shutdownStep doComplete answers).2
  | .completed                       =>
      match r.frames with
      | .completeShutdown :: frames => some { r with state := .shutdownCompleted, frames := frames }
      | _                           => none

/-- What a call that makes a `shutdownStep` is answered. -/
def Action.answers? : Action H → Option (Answers H)
  | .polled answers         => some answers
  | .shutdownStep _ answers => some answers
  | _                       => none

/-! ### What the visitors collect -/

/-- The component has work left. -/
def Component.Pending (component : Component) : Prop := component.hasWorks = true

/-- Somebody else keeps the component, an executor or not. -/
def Component.Referenced (isExecutor : Bool) (component : Component) : Prop :=
  ∃ refCounted, component.refCounted = some refCounted ∧ refCounted.isExecutor = isExecutor ∧
    refCounted.expectedRefsCount < refCounted.refsCount

theorem foldl_visit_pending (components : List Component) (visited : Visited) :
    (components.foldl Visited.visit visited).hasPendingWorks = false ↔
      visited.hasPendingWorks = false ∧ ∀ component ∈ components, ¬ component.Pending := by
  induction components generalizing visited with
  | nil => simp
  | cons component components ih =>
      rw [List.foldl_cons, ih, List.forall_mem_cons, ← and_assoc]
      refine and_congr_left fun _ => ?_
      unfold Visited.visit Component.Pending
      split
      next h => simp [h]
      next h => split <;> (try split) <;> (try split) <;> simp [h]

/-- As long as no component has work the references of each are looked at. -/
theorem foldl_visit_referenced (isExecutor : Bool) {components : List Component}
    (h : ∀ component ∈ components, ¬ component.Pending) (visited : Visited) :
    (if isExecutor then (components.foldl Visited.visit visited).hasReferencedExecutors
      else (components.foldl Visited.visit visited).hasReferencedNonExecutors) = false ↔
      (if isExecutor then visited.hasReferencedExecutors
        else visited.hasReferencedNonExecutors) = false ∧
      ∀ component ∈ components, ¬ component.Referenced isExecutor := by
  induction components generalizing visited with
  | nil => simp
  | cons component components ih =>
      obtain ⟨hcomponent, hcomponents⟩ := List.forall_mem_cons.1 h
      rw [List.foldl_cons, ih hcomponents, List.forall_mem_cons, ← and_assoc]
      refine and_congr_left fun _ => ?_
      unfold Visited.visit Component.Referenced
      rw [if_neg (show ¬ component.hasWorks = true from hcomponent)]
      cases hcounted : component.refCounted with
      | none => simp
      | some refCounted =>
          cases hexecutor : refCounted.isExecutor <;> cases isExecutor <;>
            by_cases hrefs : refCounted.expectedRefsCount < refCounted.refsCount <;>
            simp [hexecutor, hrefs]

/-- The walk counts the external handles on the pointer and leaves the number as it is. -/
theorem uvWalk_eq (handles : List H) (state : WalkState H × ℕ) :
    uvWalk handles state = ({ state.1 with handleCounter := state.1.handleCounter +
      (handles.filter (· ∉ state.1.internalHandles)).length }, state.2) := by
  induction handles generalizing state with
  | nil => rfl
  | cons handle handles ih =>
      rw [uvWalk, List.foldl_cons, ← uvWalk, ih, walkCallback]
      by_cases h : handle ∈ state.1.internalHandles
      · simp [h]
      · simp [h, Nat.add_assoc, Nat.add_comm 1]

/-! ### What the steps do -/

section Steps

variable {r r' : KernelRuntimeImpl H} {answers : Answers H} {a : Action H}

/-- When the shutdown can be completed, as intended. -/
def Completable (r : KernelRuntimeImpl H) (answers : Answers H) : Prop :=
  (∀ component ∈ answers.components, ¬ component.Pending) ∧
    (∀ component ∈ answers.components, ¬ component.Referenced false) ∧
    (((∀ component ∈ answers.components, ¬ component.Referenced true) ∧
      ∀ handle ∈ answers.handles, handle ∈ r.internalHandles) ∨ answers.aliveTasks = false)

/-- An external handle is all that is left beside a task. -/
def OnlyHandle (r : KernelRuntimeImpl H) (answers : Answers H) : Prop :=
  (∀ component ∈ answers.components, ¬ component.Pending ∧
    ∀ isExecutor, ¬ component.Referenced isExecutor) ∧
    (∃ handle ∈ answers.handles, handle ∉ r.internalHandles) ∧ answers.aliveTasks = true

/-- What `shutdownStep` decides: handles make no difference. -/
theorem canCompleteShutdown_iff : r.canCompleteShutdown answers = true ↔
    (∀ component ∈ answers.components, ¬ component.Pending) ∧
      (∀ component ∈ answers.components, ¬ component.Referenced false) ∧
      ((∀ component ∈ answers.components, ¬ component.Referenced true) ∨
        answers.aliveTasks = false) := by
  have hpending := foldl_visit_pending answers.components {}
  have hexecutors := fun h : ∀ component ∈ answers.components, ¬ component.Pending =>
    foldl_visit_referenced true h {}
  have hothers := fun h : ∀ component ∈ answers.components, ¬ component.Pending =>
    foldl_visit_referenced false h {}
  simp only [if_true, Bool.false_eq_true, if_false, true_and] at hpending hexecutors hothers
  rw [← visitObjects] at hpending hexecutors hothers
  rw [canCompleteShutdown, uvWalk_eq]
  by_cases h : ∀ component ∈ answers.components, ¬ component.Pending
  · rw [← hothers h, ← hexecutors h, ← hpending]
    rw [← hpending] at h
    cases (visitObjects answers.components).hasReferencedExecutors <;>
      cases (visitObjects answers.components).hasReferencedNonExecutors <;> simp [h]
  · rw [← hpending, Bool.not_eq_false] at h
    rw [← hpending, h]
    simp

/-- The decision is the one intended unless an external handle is all that is left. -/
theorem canCompleteShutdown_iff_completable :
    (r.canCompleteShutdown answers = true ↔ Completable r answers) ↔ ¬ OnlyHandle r answers := by
  rw [canCompleteShutdown_iff]
  constructor
  · rintro h ⟨hcomponents, ⟨handle, hmem, hexternal⟩, htasks⟩
    obtain ⟨-, -, ⟨-, hinternal⟩ | hnone⟩ := h.1 ⟨fun component hc => (hcomponents component hc).1,
      fun component hc => (hcomponents component hc).2 false,
      .inl fun component hc => (hcomponents component hc).2 true⟩
    · exact hexternal (hinternal handle hmem)
    · cases htasks.symm.trans hnone
  · intro h
    refine and_congr_right fun hpending => and_congr_right fun hothers =>
      ⟨?_, Or.imp_left And.left⟩
    rintro (hexecutors | hnone)
    · by_cases htasks : answers.aliveTasks = false
      · exact .inr htasks
      · refine .inl ⟨hexecutors, fun handle hmem => ?_⟩
        by_contra hexternal
        refine h ⟨fun component hc => ⟨hpending component hc, fun isExecutor => ?_⟩,
          ⟨handle, hmem, hexternal⟩, (Bool.not_eq_false _).mp htasks⟩
        cases isExecutor
        · exact hothers component hc
        · exact hexecutors component hc
    · exact .inr hnone

/-- A `shutdownStep` moves on if and only if it decides so. -/
theorem shutdownStep_state (doComplete : Bool) (h : r.state = .shutdownProcessed) :
    (r.shutdownStep doComplete answers).2.state =
      if r.canCompleteShutdown answers then .shutdownNeedCompletion else .shutdownProcessed := by
  rw [KernelRuntimeImpl.shutdownStep, if_neg (not_not_intro h)]
  split
  · rfl
  · split
    · exact h
    · exact h

theorem shutdownStep_of_ne (doComplete : Bool) (h : r.state ≠ .shutdownProcessed) :
    (r.shutdownStep doComplete answers).2 = r := by
  rw [KernelRuntimeImpl.shutdownStep, if_pos h]

/-- A call that makes a `shutdownStep` changes the state as this does. -/
theorem step_answers (hanswers : a.answers? = some answers) (hs : step r a = some r') :
    r'.state = (r.shutdownStep true answers).2.state := by
  cases a with
  | polled answers' =>
      obtain rfl : answers' = answers := Option.some.inj hanswers
      simp only [step] at hs
      split at hs
      next frames _ =>
        obtain rfl := Option.some.inj hs
        unfold KernelRuntimeImpl.polled
        by_cases h : r.state = .shutdownProcessed
        · rw [if_pos h, shutdownStep_state (r := r) true h]
          exact shutdownStep_state true h
        · rw [if_neg h, shutdownStep_of_ne (r := r) true h]
      next => cases hs
  | shutdownStep doComplete answers' =>
      obtain rfl : answers' = answers := Option.some.inj hanswers
      obtain rfl := Option.some.inj hs
      by_cases h : r.state = .shutdownProcessed
      · rw [shutdownStep_state doComplete h, shutdownStep_state true h]
      · rw [shutdownStep_of_ne doComplete h, shutdownStep_of_ne true h]
  | bindToCurrentThread _ | setHandleAsInternal _ | poll | shutdown | shutdownStarted _ |
    completed => cases hanswers

/-- What the runtime is meant to do at a step. -/
def Sound (r : KernelRuntimeImpl H) (a : Action H) : Prop :=
  ∀ r', step r a = some r' → r.state.rank ≤ r'.state.rank ∧
    ∀ answers, a.answers? = some answers → r.state = .shutdownProcessed →
      (r'.state = .shutdownNeedCompletion ↔ Completable r answers)

/-- The runtime is not bound again behind its shutdown, and no `shutdownStep` finds an external
handle as all that is left beside a task. -/
def Meets (r : KernelRuntimeImpl H) : Action H → Prop
  | .bindToCurrentThread _ => r.state = .notInitialized ∨ r.state = .operable
  | .shutdownStep _ answers => r.state = .shutdownProcessed → ¬ OnlyHandle r answers
  | .polled answers         =>
      r.state = .shutdownProcessed → r.frames.head? = some .uvRun → ¬ OnlyHandle r answers
  | _                      => True

theorem sound_of_answers (hanswers : a.answers? = some answers) (hs : step r a = some r') :
    Sound r a ↔ (r.state = .shutdownProcessed → ¬ OnlyHandle r answers) := by
  have hstate := step_answers hanswers hs
  constructor
  · intro h hprocessed
    have hmoves := (h r' hs).2 answers hanswers hprocessed
    rw [hstate, shutdownStep_state true hprocessed] at hmoves
    rw [← canCompleteShutdown_iff_completable, ← hmoves]
    cases r.canCompleteShutdown answers <;> decide
  · intro h r'' hs'
    obtain rfl : r' = r'' := Option.some.inj (hs.symm.trans hs')
    by_cases hprocessed : r.state = .shutdownProcessed
    · have hdecides := canCompleteShutdown_iff_completable.2 (h hprocessed)
      rw [hstate, shutdownStep_state true hprocessed, hprocessed]
      refine ⟨by cases r.canCompleteShutdown answers <;> decide, fun answers' hanswers' _ => ?_⟩
      obtain rfl := Option.some.inj (hanswers.symm.trans hanswers')
      rw [← hdecides]
      cases r.canCompleteShutdown answers <;> decide
    · rw [hstate, shutdownStep_of_ne true hprocessed]
      exact ⟨Nat.le_refl _, fun _ _ h => absurd h hprocessed⟩

/-- A call without a `shutdownStep` is sound if and only if it does not move the state back. -/
theorem sound_of_no_answers (hanswers : a.answers? = none) :
    Sound r a ↔ ∀ r', step r a = some r' → r.state.rank ≤ r'.state.rank := by
  refine forall₂_congr fun r' hs => and_iff_left fun answers h => ?_
  rw [hanswers] at h
  cases h

theorem sound_iff_meets : Sound r a ↔ Meets r a := by
  cases a with
  | bindToCurrentThread async =>
      rw [sound_of_no_answers rfl]
      simp only [step, Option.some.injEq, forall_eq', KernelRuntimeImpl.bindToCurrentThread, Meets]
      cases r.state <;> decide
  | setHandleAsInternal handle =>
      rw [sound_of_no_answers rfl]
      simp only [step, Option.some.injEq, forall_eq', KernelRuntimeImpl.setHandleAsInternal, Meets,
        Nat.le_refl]
  | poll =>
      rw [sound_of_no_answers rfl]
      simp only [step, KernelRuntimeImpl.poll, Meets]
      split
      next h =>
        split at h
        · obtain rfl := Except.ok.inj h
          simp
        · cases h
      next => simp
  | polled answers =>
      rcases hframes : r.frames with _ | ⟨frame, frames⟩
      · simp [Sound, Meets, step, hframes]
      · cases frame with
        | uvRun =>
            have hs : step r (.polled answers) =
                some ({ r with frames := frames }.polled answers) := by
              simp only [step, hframes]
            rw [sound_of_answers rfl hs, Meets, hframes, List.head?_cons]
            simp
        | completeShutdown => simp [Sound, Meets, step, hframes]
  | shutdown =>
      rw [sound_of_no_answers rfl]
      simp only [step, Option.some.injEq, forall_eq', KernelRuntimeImpl.shutdown, Meets]
      cases h : r.state <;> simp [h, RuntimeState.rank]
  | shutdownStarted now =>
      rw [sound_of_no_answers rfl]
      simp only [step, Option.some.injEq, forall_eq', KernelRuntimeImpl.shutdownStarted, Meets,
        Nat.le_refl]
  | shutdownStep doComplete answers => exact sound_of_answers rfl rfl
  | completed =>
      rw [sound_of_no_answers rfl]
      refine iff_of_true (fun r' hs => ?_) trivial
      simp only [step] at hs
      split at hs
      · obtain rfl := Option.some.inj hs
        exact r.state.rank_le
      · cases hs

/-- Over a run of such steps the state only moves forward. -/
theorem state_le_of_steps (h : Steps step Meets r r') : r.state.rank ≤ r'.state.rank := by
  refine h.invariant (P := fun r' => r.state.rank ≤ r'.state.rank) ?_ (Nat.le_refl _)
  intro r₁ a r₂ hle hmeets hs
  exact Nat.le_trans hle (sound_iff_meets.2 hmeets r₂ hs).1

end Steps

/-- **The shutdown decides as intended and the state only moves forward**, if and only if the
runtime is not bound behind its shutdown and a handle is never all that is left beside a task. -/
theorem shutdown_sound_iff (actions : List (Action H)) :
    Allowed step Sound {} actions ↔ Allowed step Meets {} actions := by
  have hsound : Sound (H := H) = Meets := by
    funext r a
    exact propext sound_iff_meets
  rw [hsound]

/-- The runtime goes down with the handle of somebody else and a task left. -/
theorem shutdown_with_handle : ¬ Allowed step Sound {} [.bindToCurrentThread 0, .shutdown,
    .shutdownStep true ⟨[⟨false, some ⟨true, 2⟩⟩], [0, 1], true, 0⟩] := by
  rintro ⟨-, h⟩
  obtain ⟨-, h⟩ := h _ rfl
  obtain ⟨h, -⟩ := h _ rfl
  obtain ⟨-, -, ⟨-, hinternal⟩ | htasks⟩ := ((h _ rfl).2 _ rfl rfl).1 rfl
  · exact absurd (hinternal 1 (by decide)) (by decide)
  · cases htasks

end MyEngine.Runtime
