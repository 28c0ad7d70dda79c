import MyEngine.Async.Reentry

/-!
# Async — ReentryObjects

`MultiTaskSource` and `TaskCollection` as objects whose tasks are awaited by coroutines that call
them.  The values and errors of the tasks are left out.

* `multiTaskSource`: `m_awaiters` are completed under `m_mutex`, also when they are destroyed.
* `taskCollection`: the ready callback resolves `m_closeAwaiter` under `m_mutex`, and
  `awaitCompletionInternal` waits for it.
* `calm_or_reacquires`: no thread takes either mutex twice unless somebody who needs it is resumed
  on the spot by one who has it.
-/

namespace MyEngine.Async.Reentry

open Runs

/-- A core task that no coroutine awaits. -/
abbrev Core := CoreTask Unit Unit Unit Unit

/-! ### MultiTaskSource -/

structure Source where
  inner : Option Core := some {}
  awaiters : List ℕ := []
  autoResetOnReady : Bool := false
  deriving DecidableEq

/-- `complete` is `resolve` or `reject`, and `reset` is also the assignment of a null pointer. -/
inductive SourceCall where
  | isReady
  | getNextTask
  | complete
  | reset
  | emplace
  | setAutoResetOnReady (resetOnReady : Bool)
  deriving DecidableEq

def multiTaskSource : Object Source SourceCall where
  isPublic _ := true
  start
    | .complete, m =>
        match m.inner.bind (CoreTask.tryResolve none) with
        | some inner => ({ m with inner := some inner }, true)
        | none       => (m, false)
    | _, m         => (m, true)
  enter
    | .isReady, _, m                          => { object := m }
    | .getNextTask, next, m                   =>
        if m.inner.all fun inner => inner.flags.ready then
          { object := m, created := [true], handsOut := [next] }
        else
          { object := { m with awaiters := m.awaiters ++ [next] }
            created := [false]
            handsOut := [next] }
    | .complete, _, m                         => { object := m, completes := m.awaiters }
    -- the destructor of an awaiter rejects it
    | .reset, _, m                            => { object := m, completes := m.awaiters }
    | .emplace, _, m                          => { object := m, completes := m.awaiters }
    | .setAutoResetOnReady resetOnReady, _, m =>
        { object := { m with autoResetOnReady := resetOnReady } }
  leave
    | .complete, m =>
        { m with awaiters := [], inner := if m.autoResetOnReady then none else m.inner }
    | .reset, m    => { m with awaiters := [], inner := none }
    | .emplace, m  => { m with awaiters := [], inner := some {} }
    | _, m         => m

/-! ### TaskCollection -/

/-- `tasks` are those that may be pushed, and `entries` those in `m_tasks`. -/
structure Collection where
  tasks : List Core
  entries : List ℕ := []
  closeAwaiter : Option ℕ := none
  isDisposing : Bool := false
  isDisposed : Bool := false
  deriving DecidableEq

/-- `awaitCompletion` is `disposeAsync` with `dispose`; `look` is a turn of its loop, and `finish`
what it does when it leaves, with the number of its own task. -/
inductive CollectionCall where
  | isEmpty
  | push (task : ℕ)
  | setReadyCallback (task : ℕ)
  | complete (task : ℕ)
  | awaitCompletion (dispose : Bool)
  | look (dispose : Bool) (task : ℕ)
  | finish (task : ℕ)
  deriving DecidableEq

namespace Collection

def setTask (c : Collection) (task : ℕ) (core : Core) : Collection :=
  { c with tasks := c.tasks.set task core }

/-- The section of the ready callback. -/
def remove (c : Collection) (task : ℕ) : Section Collection CollectionCall :=
  let c := { c with entries := c.entries.erase task }
  if c.entries.isEmpty then
    { object := { c with closeAwaiter := none }, completes := c.closeAwaiter.toList }
  else { object := c }

end Collection

def taskCollection : Object Collection CollectionCall where
  isPublic
    | .isEmpty | .push _ | .complete _ | .awaitCompletion _ => true
    | _                                                     => false
  start
    | .push task, c             => (c, c.tasks[task]?.any fun core => !core.flags.ready)
    | .setReadyCallback task, c =>
        match c.tasks[task]? with
        | some core =>
            let (callback, core) := core.setReadyCallback (some ())
            (c.setTask task core, callback.isSome)
        | none      => (c, false)
    -- `tryResolveInternal` with `invokeReadyCallback`
    | .complete task, c         =>
        match c.tasks[task]?.bind (CoreTask.tryResolve none) with
        | some core =>
            let (callback, core) := core.takeReadyCallback
            (c.setTask task core, callback.isSome)
        | none      => (c, false)
    | _, c                      => (c, true)
  enter
    | .isEmpty, _, c                  => { object := c }
    | .push task, _, c                =>
        { object := { c with entries := c.entries ++ [task] }
          after := .call (.setReadyCallback task) }
    | .setReadyCallback task, _, c    => c.remove task
    | .complete task, _, c            => c.remove task
    | .awaitCompletion dispose, own, c =>
        if c.isDisposing then { object := c, created := [true], handsOut := [own] }
        else
          { object := { c with isDisposing := true }
            created := [false]
            after := .call (.look dispose own) }
    | .look dispose own, next, c      =>
        if c.entries.isEmpty then
          { object := { c with isDisposed := c.isDisposed || dispose }
            after := .call (.finish own) }
        else
          { object := { c with closeAwaiter := some next }
            created := [false]
            handsOut := [own]
            after := .await next (.look dispose own) }
    | .finish own, _, c               =>
        { object := { c with isDisposing := false }, handsOut := [own], after := .complete own }
  leave _ c := c

/-! ### Runs -/

/-- In every run in which no awaiter that needs the mutex is resumed on the spot under it, no thread
takes the mutex twice, and one that does is a run away from where this happens first. -/
theorem calm_or_reacquires {X : Type} (calls : ℕ → Bool) (current : ℕ → Option X) (threads : ℕ)
    (inner : Option Core) (tasks : List Core) :
    (∀ s, Steps (step multiTaskSource calls) (fun s a => isHarmless calls s a = true)
        (initial { inner := inner } current threads) s →
      ¬ s.Reacquires ∧ ∀ a s', step multiTaskSource calls s a = some s' →
        isHarmless calls s a = false →
          ∃ as s'', exec (step multiTaskSource calls) s' as = some s'' ∧ s''.Reacquires) ∧
    ∀ s, Steps (step taskCollection calls) (fun s a => isHarmless calls s a = true)
        (initial { tasks := tasks } current threads) s →
      ¬ s.Reacquires ∧ ∀ a s', step taskCollection calls s a = some s' →
        isHarmless calls s a = false →
          ∃ as s'', exec (step taskCollection calls) s' as = some s'' ∧ s''.Reacquires := by
  constructor
  · intro s h
    exact calm_of_steps .isReady rfl (fun _ => rfl) h
  · intro s h
    exact calm_of_steps .isEmpty rfl (fun _ => rfl) h

/-- A coroutine awaits the next task; the source is resolved on another thread. -/
def awaitedThenResolved : List (Action Unit SourceCall) :=
  [.start 0 7, .call 0 .getNextTask, .work 0 false, .work 0 false, .work 0 false, .work 0 false,
    .await 0 0 false, .call 1 .complete, .work 1 false, .work 1 false, .work 1 false]

/-- The coroutine asks for the next task then. -/
def awaitedThenCalled : List (Action Unit SourceCall) :=
  awaitedThenResolved ++ [.call 1 .getNextTask, .work 1 false]

/-- The last task of a collection is completed when `awaitCompletion` waits for it. -/
def awaitedThenCompleted : List (Action Unit CollectionCall) :=
  .call 0 (.push 0) :: .replicate 5 (.work 0 false) ++
    .call 0 (.awaitCompletion false) :: .replicate 8 (.work 0 false) ++
    .call 1 (.complete 0) :: .replicate 3 (.work 1 false)

/-- With an executor on the threads the continuations are posted; without one a step resumes the
coroutine under the mutex. -/
theorem executed_calm : (∃ s : State Source Unit SourceCall,
      s.posted = [((), .coroutine 7)] ∧ ¬ s.Reacquires) ∧
    (∃ c : State Collection Unit CollectionCall,
      c.posted = [((), .operation (.look false 0))] ∧ ¬ c.Reacquires) ∧
    ∃ s s' : State Source Unit SourceCall, ¬ s.Reacquires ∧
      step multiTaskSource (fun _ => true) s (.work 1 false) = some s' ∧
      ∃ as s'', exec (step multiTaskSource fun _ => true) s' as = some s'' ∧ s''.Reacquires := by
  have hcalm := fun current =>
    calm_or_reacquires (X := Unit) (fun _ => true) current 2 (some {}) [{}]
  refine ⟨?_, ?_, ?_⟩
  · obtain ⟨s, hs, hposted⟩ : ∃ s, exec (step multiTaskSource fun _ => true)
        (initial {} (fun _ => some ()) 2) awaitedThenResolved = some s ∧
        s.posted = [((), .coroutine 7)] := ⟨_, rfl, rfl⟩
    exact ⟨s, hposted, ((hcalm _).1 s (exec_steps (by decide) hs)).1⟩
  · obtain ⟨c, hc, hposted⟩ : ∃ c, exec (step taskCollection fun _ => true)
        (initial { tasks := [{}] } (fun _ => some ()) 2) awaitedThenCompleted = some c ∧
        c.posted = [((), .operation (.look false 0))] := ⟨_, rfl, rfl⟩
    exact ⟨c, hposted, ((hcalm _).2 c (exec_steps (by decide) hc)).1⟩
  · obtain ⟨s, hs, s', hs', hharmless⟩ : ∃ s, exec (step multiTaskSource fun _ => true)
        (initial {} (fun _ => none) 2) awaitedThenResolved.dropLast = some s ∧
        ∃ s', step multiTaskSource (fun _ => true) s (.work 1 false) = some s' ∧
          isHarmless (fun _ => true) s (.work 1 false : Action Unit SourceCall) = false :=
      ⟨_, rfl, _, rfl, rfl⟩
    have h := (hcalm _).1 s (exec_steps (by decide) hs)
    exact ⟨s, s', h.1, hs', h.2 _ s' hs' hharmless⟩

/-- Without an executor both come to take the mutex twice: the awaiter of the source calls
`getNextTask`, and `awaitCompletionInternal` takes its next turn. -/
theorem resumed_reacquires :
    (∃ s, Steps (step multiTaskSource fun _ => true) Free
      (initial {} (fun _ => (none : Option Unit)) 2) s ∧ s.Reacquires) ∧
    ∃ c, Steps (step taskCollection fun _ => true) Free
      (initial { tasks := [{}] } (fun _ => (none : Option Unit)) 2) c ∧ c.Reacquires := by
  constructor
  · obtain ⟨s, hs, hreacquires⟩ : ∃ s, exec (step multiTaskSource fun _ => true)
        (initial {} (fun _ => (none : Option Unit)) 2) awaitedThenCalled = some s ∧
          s.Reacquires := ⟨_, rfl, 1, _, _, rfl, rfl⟩
    exact ⟨s, exec_steps (allowed_free _ _) hs, hreacquires⟩
  · obtain ⟨c, hc, hreacquires⟩ : ∃ c, exec (step taskCollection fun _ => true)
        (initial { tasks := [{}] } (fun _ => (none : Option Unit)) 2) awaitedThenCompleted =
          some c ∧ c.Reacquires := ⟨_, rfl, 1, _, _, rfl, rfl⟩
    exact ⟨c, exec_steps (allowed_free _ _) hc, hreacquires⟩

end MyEngine.Async.Reentry
