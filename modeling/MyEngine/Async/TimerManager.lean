import Mathlib.Data.List.Basic
import MyEngine.Support.Replace
import MyEngine.Support.Runs

/-!
# Async — TimerManager

`win32_timer_manager.cpp`: the timers, the threads that call the manager, and the timer queue of the
system.  A section under a lock is one step where nothing in it can block; the sections of
`cancelInvokeAfter` and of `dispose` are taken step by step.  Continuations are posted to an
executor.

* `TimerState`: a timer with its coroutine, its core task and the timer of the system.
* `step`: a call, the next operation of a thread, or a step of the system.
* `Stepped`: the ways to take a step.
-/

namespace MyEngine.Async.Timers

open MyEngine.Runs

/-! ### One timer -/

inductive TimerOperationResult where
  | success
  | cancelled
  | shutingDown
  deriving DecidableEq, Repr

/-- Whose coroutine has made the timer; `executeAfterAsync` may have an executor to switch to. -/
inductive Kind where
  | invokeAfter
  | executeAfter (switches : Bool)
  deriving DecidableEq, Repr

/-- Where the coroutine is, from its constructor of the timer to the end of the destructor. -/
inductive Place where
  | create
  | awaitTask
  | awaiting
  | posted
  | resumed
  | lockState
  | callback
  | switching
  | switched
  | calling
  | destroy
  | deleteTimer
  | finished
  deriving DecidableEq, Repr

/-- The timer of the system; `resolved` is still inside of its callback. -/
inductive OsTimer where
  | never
  | armed
  | firing
  | resolved
  | fired
  | deleted
  deriving DecidableEq, Repr

/-- The timer, with the references to its core task and how often that has been destroyed.
`takenBack` counts the references the system has given back and `calls` the starts of the callback;
the last three are what has happened to it. -/
structure TimerState where
  kind : Kind
  place : Place := .create
  promise : Option TimerOperationResult := none
  mutex : Option ℕ := none
  cancelled : Bool := false
  hTimer : Bool := false
  os : OsTimer := .never
  refs : ℕ := 0
  destroyed : ℕ := 0
  takenBack : ℕ := 0
  calls : ℕ := 0
  returned : Bool := false
  cancelledByClient : Bool := false
  cancelReturned : Bool := false
  disposedFirst : Bool := false
  deriving DecidableEq, Repr

namespace TimerState

@[simp]
def ofKind (kind : Kind) : TimerState := { kind := kind }

@[simp]
def addRef (x : TimerState) : TimerState := { x with refs := x.refs + 1 }

@[simp]
def releaseRef (x : TimerState) : TimerState :=
  { x with
    refs := x.refs - 1
    destroyed := if x.refs = 1 then x.destroyed + 1 else x.destroyed }

/-- The constructor: the promise is one reference, the one given up to the system another. -/
def construct (x : TimerState) (isDisposed : Bool) : TimerState :=
  if isDisposed then
    { x with
      place := .awaitTask
      refs := 1
      cancelled := true
      promise := some .cancelled
      disposedFirst := true }
  else { x with place := .awaitTask, refs := 2, hTimer := true, os := .armed }

/-- The promise takes the first result, and the continuation is posted if there is one. -/
def resolve (x : TimerState) (result : TimerOperationResult) : TimerState :=
  if x.promise.isSome then x
  else
    { x with
      promise := some result
      place := if x.place = .awaiting then .posted else x.place }

/-- `co_await` on a task that is not ready; the call returns. -/
@[simp]
def suspend (x : TimerState) : TimerState :=
  { x.addRef with place := .awaiting, returned := true }

/-- `co_await` on a task that is ready. -/
@[simp]
def goOn (x : TimerState) : TimerState := { x.addRef with place := .resumed }

/-- Behind `co_await`, with the result. -/
def resume (x : TimerState) : TimerState :=
  TimerState.releaseRef <|
    match x.kind with
    | .invokeAfter        =>
        { x with place := if x.promise = some .cancelled then .destroy else .lockState }
    | .executeAfter true  => { x with place := .switching, returned := true }
    | .executeAfter false => { x with place := .switched }

/-- `mutex` is locked and `cancelled` read. -/
def enter (x : TimerState) (thread : ℕ) : TimerState :=
  if x.cancelled then { x with place := .destroy }
  else { x with place := .callback, mutex := some thread, calls := x.calls + 1 }

/-- The callback returns under `mutex`. -/
@[simp]
def leave (x : TimerState) : TimerState := { x with place := .destroy, mutex := none }

/-- The callback of `executeAfterAsync`, without a lock. -/
@[simp]
def call (x : TimerState) : TimerState := { x with place := .calling, calls := x.calls + 1 }

/-- The system forgets the timer, unless its callback has begun. -/
@[simp]
def deleteOs (x : TimerState) : TimerState :=
  { x with os := if x.hTimer && x.os = .armed then .deleted else x.os }

/-- `DeleteTimerQueueTimer` with `INVALID_HANDLE_VALUE` waits for the callback. -/
def deleteWaits (x : TimerState) : Bool := x.hTimer && (x.os = .firing || x.os = .resolved)

/-- The end of the destructor, with the promise. -/
@[simp]
def destroy (x : TimerState) : TimerState :=
  { x.deleteOs with place := .finished, returned := true }.releaseRef

@[simp]
def fire (x : TimerState) : TimerState := { x with os := .firing }

def osResolve (x : TimerState) : TimerState := { x.resolve .success with os := .resolved }

/-- The callback of the system ends, with the reference it has taken back. -/
@[simp]
def osReturn (x : TimerState) : TimerState :=
  { x with os := .fired, takenBack := x.takenBack + 1 }.releaseRef

/-- The section of `cancel`, called by a client or by `dispose`. -/
@[simp]
def setCancelled (x : TimerState) (byClient : Bool) : TimerState :=
  { x with
    cancelled := true
    cancelledByClient := x.cancelledByClient || byClient
    disposedFirst := x.disposedFirst || (!byClient && x.calls = 0) }

/-- The next operation of the coroutine that needs no lock of the manager, and if the thread leaves
the coroutine. -/
def next (x : TimerState) (thread : ℕ) : Option (TimerState × Bool) :=
  match x.place with
  | .awaitTask   => some <| if x.promise.isNone then (x.suspend, true) else (x.goOn, false)
  | .resumed     => some (x.resume, x.resume.place = .switching)
  | .lockState   => if x.mutex.isNone then some (x.enter thread, false) else none
  | .callback    => some (x.leave, false)
  | .switched    => some (x.call, false)
  | .calling     => some ({ x with place := .destroy }, false)
  | .deleteTimer => if x.deleteWaits then none else some (x.destroy, true)
  | _            => none

/-- `cancel` takes the handle. -/
@[simp]
def takeTimer (x : TimerState) : TimerState := { x.deleteOs with hTimer := false }

end TimerState

/-! ### The manager -/

/-- Calls on the stack of a thread; `body` is the coroutine of a timer.  From `find` and `loop` on
they have `m_mutex`; what is cancelled is the timer of a client or, by `dispose`, all of them. -/
inductive Frame where
  | body (timer : ℕ)
  | cancelInvokeAfter (timer : ℕ)
  | find (timer : ℕ)
  | dispose
  | loop (client : Option ℕ) (timers : List ℕ)
  | lockState (client : Option ℕ) (timer : ℕ) (timers : List ℕ)
  | resolve (client : Option ℕ) (timer : ℕ) (timers : List ℕ)
  | deleteTimer (client : Option ℕ) (timer : ℕ) (timers : List ℕ)
  deriving DecidableEq, Repr

structure Win32TimerManager where
  isDisposed : Bool := false
  mutex : Option ℕ := none
  timerStateList : List ℕ := []
  timers : List TimerState := []
  threads : List (List Frame)
  deriving DecidableEq, Repr

inductive Action where
  | invokeAfter (thread : ℕ) (kind : Kind)
  | cancelInvokeAfter (thread timer : ℕ)
  | dispose (thread : ℕ)
  | run (thread timer : ℕ)
  | work (thread : ℕ)
  | fire (timer : ℕ)
  | osResolve (timer : ℕ)
  | osReturn (timer : ℕ)
  deriving DecidableEq, Repr

namespace Win32TimerManager

def setTimer (s : Win32TimerManager) (timer : ℕ) (x : TimerState) : Win32TimerManager :=
  { s with timers := s.timers.set timer x }

def setStack (s : Win32TimerManager) (thread : ℕ) (stack : List Frame) : Win32TimerManager :=
  { s with threads := s.threads.set thread stack }

/-- The thread runs code that may call the manager: its own, or a callback. -/
def canCall (s : Win32TimerManager) : List Frame → Bool
  | []               => true
  | .body timer :: _ => s.timers[timer]?.any fun x => x.place = .callback || x.place = .calling
  | _                => false

/-- The section of the constructor. -/
def create (s : Win32TimerManager) (timer : ℕ) (x : TimerState) : Win32TimerManager :=
  { s with timerStateList := s.timerStateList ++ [timer] }.setTimer timer (x.construct s.isDisposed)

/-- The section of the destructor. -/
def remove (s : Win32TimerManager) (timer : ℕ) (x : TimerState) : Win32TimerManager :=
  { s with timerStateList := s.timerStateList.erase timer }.setTimer timer
    { x with place := .deleteTimer }

/-- The next operation of the coroutine of a timer, with the stack below. -/
def workBody (s : Win32TimerManager) (thread timer : ℕ) (x : TimerState) (stack : List Frame) :
    Option Win32TimerManager :=
  if x.place = .create then
    if s.mutex.isNone then some ((s.create timer x).setStack thread (.body timer :: stack))
    else none
  else if x.place = .destroy then
    if s.mutex.isNone then some ((s.remove timer x).setStack thread (.body timer :: stack))
    else none
  else
    (x.next thread).map fun (x', leaves) =>
      (s.setTimer timer x').setStack thread (if leaves then stack else .body timer :: stack)

/-- `cancelInvokeAfter` or `dispose` gives `m_mutex` back and returns. -/
def unlock (s : Win32TimerManager) (thread : ℕ) (client : Option ℕ) (stack : List Frame) :
    Win32TimerManager :=
  let s := { s with mutex := none }.setStack thread stack
  match client.bind fun timer => s.timers[timer]?.map fun x => (timer, x) with
  | some (timer, x) => s.setTimer timer { x with cancelReturned := true }
  | none            => s

/-- The next operation of a thread, by its topmost call. -/
def work (s : Win32TimerManager) (thread : ℕ) : List Frame → Option Win32TimerManager
  | []                                        => none
  | .body timer :: stack                      =>
      s.timers[timer]?.bind fun x => s.workBody thread timer x stack
  | .cancelInvokeAfter timer :: stack         =>
      if s.mutex.isNone then
        some ({ s with mutex := some thread }.setStack thread (.find timer :: stack))
      else none
  | .find timer :: stack                      => some <|
      if timer ∈ s.timerStateList then s.setStack thread (.loop (some timer) [timer] :: stack)
      else s.unlock thread (some timer) stack
  | .dispose :: stack                         =>
      if s.mutex.isNone then
        some ({ s with mutex := some thread }.setStack thread
          (.loop none s.timerStateList :: stack))
      else none
  | .loop client [] :: stack                  => some (s.unlock thread client stack)
  | .loop client (timer :: timers) :: stack   =>
      some (s.setStack thread (.lockState client timer timers :: stack))
  | .lockState client timer timers :: stack   =>
      s.timers[timer]?.bind fun x =>
        if x.mutex.isNone then
          some ((s.setTimer timer (x.setCancelled client.isSome)).setStack thread
            (.resolve client timer timers :: stack))
        else none
  | .resolve client timer timers :: stack     =>
      s.timers[timer]?.map fun x =>
        (s.setTimer timer
          (x.resolve (if client.isSome then .cancelled else .shutingDown))).setStack thread
            (.deleteTimer client timer timers :: stack)
  | .deleteTimer client timer timers :: stack =>
      s.timers[timer]?.bind fun x =>
        if x.deleteWaits then none
        else some ((s.setTimer timer x.takeTimer).setStack thread (.loop client timers :: stack))

end Win32TimerManager

/-- A handle is known where `invokeAfter` has returned it; an executor runs what is posted on one of
its threads. -/
def step (s : Win32TimerManager) : Action → Option Win32TimerManager
  | .invokeAfter thread kind        =>
      s.threads[thread]?.bind fun stack =>
        if s.canCall stack then
          some ({ s with timers := s.timers ++ [TimerState.ofKind kind] }.setStack thread
            (.body s.timers.length :: stack))
        else none
  | .cancelInvokeAfter thread timer =>
      s.threads[thread]?.bind fun stack => s.timers[timer]?.bind fun x =>
        if s.canCall stack ∧ x.kind = .invokeAfter ∧ x.returned then
          some (s.setStack thread (.cancelInvokeAfter timer :: stack))
        else none
  | .dispose thread                 =>
      s.threads[thread]?.bind fun stack =>
        if s.canCall stack then
          if s.isDisposed then some s
          else some ({ s with isDisposed := true }.setStack thread (.dispose :: stack))
        else none
  | .run thread timer               =>
      s.threads[thread]?.bind fun stack => s.timers[timer]?.bind fun x =>
        if stack = [] then
          if x.place = .posted then
            some ((s.setTimer timer { x with place := .resumed }).setStack thread [.body timer])
          else if x.place = .switching then
            some ((s.setTimer timer { x with place := .switched }).setStack thread [.body timer])
          else none
        else none
  | .work thread                    => s.threads[thread]?.bind fun stack => s.work thread stack
  | .fire timer                     =>
      s.timers[timer]?.bind fun x => if x.os = .armed then some (s.setTimer timer x.fire) else none
  | .osResolve timer                =>
      s.timers[timer]?.bind fun x =>
        if x.os = .firing then some (s.setTimer timer x.osResolve) else none
  | .osReturn timer                 =>
      s.timers[timer]?.bind fun x =>
        if x.os = .resolved then some (s.setTimer timer x.osReturn) else none

/-! ### What a step does -/

/-- The ways to take a step. -/
inductive Stepped (s : Win32TimerManager) : Action → Win32TimerManager → Prop where
  | invokeAfter {thread : ℕ} {stack : List Frame} (kind : Kind)
      (hstack : s.threads[thread]? = some stack) (hcall : s.canCall stack = true) :
      Stepped s (.invokeAfter thread kind)
        ({ s with timers := s.timers ++ [TimerState.ofKind kind] }.setStack thread
          (.body s.timers.length :: stack))
  | cancelInvokeAfter {thread timer : ℕ} {x : TimerState} {stack : List Frame}
      (hstack : s.threads[thread]? = some stack) (hcall : s.canCall stack = true)
      (hx : s.timers[timer]? = some x) (hreturned : x.returned = true) :
      Stepped s (.cancelInvokeAfter thread timer)
        (s.setStack thread (.cancelInvokeAfter timer :: stack))
  | disposeAgain {thread : ℕ} (hdisposed : s.isDisposed = true) : Stepped s (.dispose thread) s
  | dispose {thread : ℕ} {stack : List Frame} (hstack : s.threads[thread]? = some stack)
      (hcall : s.canCall stack = true) (hdisposed : s.isDisposed = false) :
      Stepped s (.dispose thread)
        ({ s with isDisposed := true }.setStack thread (.dispose :: stack))
  | run {thread timer : ℕ} {x : TimerState} (hstack : s.threads[thread]? = some [])
      (hx : s.timers[timer]? = some x) (hplace : x.place = .posted) :
      Stepped s (.run thread timer)
        ((s.setTimer timer { x with place := .resumed }).setStack thread [.body timer])
  | runSwitched {thread timer : ℕ} {x : TimerState} (hstack : s.threads[thread]? = some [])
      (hx : s.timers[timer]? = some x) (hplace : x.place = .switching) :
      Stepped s (.run thread timer)
        ((s.setTimer timer { x with place := .switched }).setStack thread [.body timer])
  | create {thread timer : ℕ} {x : TimerState} {stack : List Frame}
      (hstack : s.threads[thread]? = some (.body timer :: stack))
      (hx : s.timers[timer]? = some x) (hplace : x.place = .create) (hmutex : s.mutex = none) :
      Stepped s (.work thread) ((s.create timer x).setStack thread (.body timer :: stack))
  | remove {thread timer : ℕ} {x : TimerState} {stack : List Frame}
      (hstack : s.threads[thread]? = some (.body timer :: stack))
      (hx : s.timers[timer]? = some x) (hplace : x.place = .destroy) (hmutex : s.mutex = none) :
      Stepped s (.work thread) ((s.remove timer x).setStack thread (.body timer :: stack))
  | next {thread timer : ℕ} {x x' : TimerState} {leaves : Bool} {stack : List Frame}
      (hstack : s.threads[thread]? = some (.body timer :: stack))
      (hx : s.timers[timer]? = some x) (hnext : x.next thread = some (x', leaves)) :
      Stepped s (.work thread) ((s.setTimer timer x').setStack thread
        (if leaves then stack else .body timer :: stack))
  | lockCancel {thread timer : ℕ} {stack : List Frame}
      (hstack : s.threads[thread]? = some (.cancelInvokeAfter timer :: stack))
      (hmutex : s.mutex = none) :
      Stepped s (.work thread)
        ({ s with mutex := some thread }.setStack thread (.find timer :: stack))
  | found {thread timer : ℕ} {stack : List Frame}
      (hstack : s.threads[thread]? = some (.find timer :: stack))
      (hmem : timer ∈ s.timerStateList) :
      Stepped s (.work thread) (s.setStack thread (.loop (some timer) [timer] :: stack))
  | notFound {thread timer : ℕ} {stack : List Frame}
      (hstack : s.threads[thread]? = some (.find timer :: stack))
      (hmem : timer ∉ s.timerStateList) :
      Stepped s (.work thread) (s.unlock thread (some timer) stack)
  | lockDispose {thread : ℕ} {stack : List Frame}
      (hstack : s.threads[thread]? = some (.dispose :: stack)) (hmutex : s.mutex = none) :
      Stepped s (.work thread) ({ s with mutex := some thread }.setStack thread
        (.loop none s.timerStateList :: stack))
  | unlock {thread : ℕ} {client : Option ℕ} {stack : List Frame}
      (hstack : s.threads[thread]? = some (.loop client [] :: stack)) :
      Stepped s (.work thread) (s.unlock thread client stack)
  | loop {thread timer : ℕ} {client : Option ℕ} {timers : List ℕ} {stack : List Frame}
      (hstack : s.threads[thread]? = some (.loop client (timer :: timers) :: stack)) :
      Stepped s (.work thread) (s.setStack thread (.lockState client timer timers :: stack))
  | lockState {thread timer : ℕ} {x : TimerState} {client : Option ℕ} {timers : List ℕ}
      {stack : List Frame}
      (hstack : s.threads[thread]? = some (.lockState client timer timers :: stack))
      (hx : s.timers[timer]? = some x) (hmutex : x.mutex = none) :
      Stepped s (.work thread) ((s.setTimer timer (x.setCancelled client.isSome)).setStack thread
        (.resolve client timer timers :: stack))
  | resolve {thread timer : ℕ} {x : TimerState} {client : Option ℕ} {timers : List ℕ}
      {stack : List Frame}
      (hstack : s.threads[thread]? = some (.resolve client timer timers :: stack))
      (hx : s.timers[timer]? = some x) :
      Stepped s (.work thread) ((s.setTimer timer
        (x.resolve (if client.isSome then .cancelled else .shutingDown))).setStack thread
          (.deleteTimer client timer timers :: stack))
  | deleteTimer {thread timer : ℕ} {x : TimerState} {client : Option ℕ} {timers : List ℕ}
      {stack : List Frame}
      (hstack : s.threads[thread]? = some (.deleteTimer client timer timers :: stack))
      (hx : s.timers[timer]? = some x) (hwaits : x.deleteWaits = false) :
      Stepped s (.work thread)
        ((s.setTimer timer x.takeTimer).setStack thread (.loop client timers :: stack))
  | fire {timer : ℕ} {x : TimerState} (hx : s.timers[timer]? = some x) (hos : x.os = .armed) :
      Stepped s (.fire timer) (s.setTimer timer x.fire)
  | osResolve {timer : ℕ} {x : TimerState} (hx : s.timers[timer]? = some x)
      (hos : x.os = .firing) : Stepped s (.osResolve timer) (s.setTimer timer x.osResolve)
  | osReturn {timer : ℕ} {x : TimerState} (hx : s.timers[timer]? = some x)
      (hos : x.os = .resolved) : Stepped s (.osReturn timer) (s.setTimer timer x.osReturn)

section Steps

variable {s s' : Win32TimerManager} {a : Action}

theorem stepped_of_work {thread : ℕ} {stack : List Frame}
    (hstack : s.threads[thread]? = some stack) (h : s.work thread stack = some s') :
    Stepped s (.work thread) s' := by
  cases stack with
  | nil => cases h
  | cons frame stack =>
      cases frame with
      | body timer =>
          obtain ⟨x, hx, h⟩ := Option.bind_eq_some_iff.1 h
          unfold Win32TimerManager.workBody at h
          split at h
          next hplace =>
            split at h
            next hmutex =>
              obtain rfl := Option.some.inj h
              exact .create hstack hx hplace (Option.isNone_iff_eq_none.1 hmutex)
            next => cases h
          next =>
            split at h
            next hplace =>
              split at h
              next hmutex =>
                obtain rfl := Option.some.inj h
                exact .remove hstack hx hplace (Option.isNone_iff_eq_none.1 hmutex)
              next => cases h
            next =>
              obtain ⟨⟨x', leaves⟩, hnext, rfl⟩ := Option.map_eq_some_iff.1 h
              exact .next hstack hx hnext
      | cancelInvokeAfter timer =>
          simp only [Win32TimerManager.work] at h
          split at h
          next hmutex =>
            obtain rfl := Option.some.inj h
            exact .lockCancel hstack (Option.isNone_iff_eq_none.1 hmutex)
          next => cases h
      | find timer =>
          obtain rfl := Option.some.inj h
          split
          next hmem => exact .found hstack hmem
          next hmem => exact .notFound hstack hmem
      | dispose =>
          simp only [Win32TimerManager.work] at h
          split at h
          next hmutex =>
            obtain rfl := Option.some.inj h
            exact .lockDispose hstack (Option.isNone_iff_eq_none.1 hmutex)
          next => cases h
      | loop client timers =>
          cases timers with
          | nil =>
              obtain rfl := Option.some.inj h
              exact .unlock hstack
          | cons timer timers =>
              obtain rfl := Option.some.inj h
              exact .loop hstack
      | lockState client timer timers =>
          obtain ⟨x, hx, h⟩ := Option.bind_eq_some_iff.1 h
          split at h
          next hmutex =>
            obtain rfl := Option.some.inj h
            exact .lockState hstack hx (Option.isNone_iff_eq_none.1 hmutex)
          next => cases h
      | resolve client timer timers =>
          obtain ⟨x, hx, rfl⟩ := Option.map_eq_some_iff.1 h
          exact .resolve hstack hx
      | deleteTimer client timer timers =>
          obtain ⟨x, hx, h⟩ := Option.bind_eq_some_iff.1 h
          split at h
          next => cases h
          next hwaits =>
            obtain rfl := Option.some.inj h
            exact .deleteTimer hstack hx (Bool.not_eq_true _ ▸ hwaits)

theorem stepped_of_step (h : step s a = some s') : Stepped s a s' := by
  cases a with
  | invokeAfter thread kind =>
      obtain ⟨stack, hstack, h⟩ := Option.bind_eq_some_iff.1 h
      split at h
      next hcall =>
        obtain rfl := Option.some.inj h
        exact .invokeAfter kind hstack hcall
      next => cases h
  | cancelInvokeAfter thread timer =>
      obtain ⟨stack, hstack, h⟩ := Option.bind_eq_some_iff.1 h
      obtain ⟨x, hx, h⟩ := Option.bind_eq_some_iff.1 h
      split at h
      next hcall =>
        obtain rfl := Option.some.inj h
        exact .cancelInvokeAfter hstack hcall.1 hx hcall.2.2
      next => cases h
  | dispose thread =>
      obtain ⟨stack, hstack, h⟩ := Option.bind_eq_some_iff.1 h
      split at h
      next hcall =>
        split at h
        next hdisposed =>
          obtain rfl := Option.some.inj h
          exact .disposeAgain hdisposed
        next hdisposed =>
          obtain rfl := Option.some.inj h
          exact .dispose hstack hcall (Bool.not_eq_true _ ▸ hdisposed)
      next => cases h
  | run thread timer =>
      obtain ⟨stack, hstack, h⟩ := Option.bind_eq_some_iff.1 h
      obtain ⟨x, hx, h⟩ := Option.bind_eq_some_iff.1 h
      split at h
      next hempty =>
        rw [hempty] at hstack
        split at h
        next hplace =>
          obtain rfl := Option.some.inj h
          exact .run hstack hx hplace
        next =>
          split at h
          next hplace =>
            obtain rfl := Option.some.inj h
            exact .runSwitched hstack hx hplace
          next => cases h
      next => cases h
  | work thread =>
      obtain ⟨stack, hstack, h⟩ := Option.bind_eq_some_iff.1 h
      exact stepped_of_work hstack h
  | fire timer =>
      obtain ⟨x, hx, h⟩ := Option.bind_eq_some_iff.1 h
      split at h
      next hos =>
        obtain rfl := Option.some.inj h
        exact .fire hx hos
      next => cases h
  | osResolve timer =>
      obtain ⟨x, hx, h⟩ := Option.bind_eq_some_iff.1 h
      split at h
      next hos =>
        obtain rfl := Option.some.inj h
        exact .osResolve hx hos
      next => cases h
  | osReturn timer =>
      obtain ⟨x, hx, h⟩ := Option.bind_eq_some_iff.1 h
      split at h
      next hos =>
        obtain rfl := Option.some.inj h
        exact .osReturn hx hos
      next => cases h

end Steps

end MyEngine.Async.Timers
