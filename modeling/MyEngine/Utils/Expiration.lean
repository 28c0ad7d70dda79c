import MyEngine.Support.Notifier
import MyEngine.Support.Runs
import MyEngine.Threading.SpinLock

/-!
# Utils — Expiration

`ExpirationState` of `cancellation.cpp` over a timeout, a `CancellationState` or both: any number
of threads subscribe, unsubscribe and cancel while the time passes and the timer fires.  A
callback may unsubscribe while it runs.

* `Frame`: where a call stands; the calls of a thread are a stack.
* `step`: the threads, the clock and the timer; each reading of the clock or of the cancellation
  is a step, and so is each acquisition of a mutex.
* `work`: what the call on top of a stack does next; `Worked` has one constructor for each way.
-/

namespace MyEngine.Utils.Expiration

open Runs OneShot Threading

/-- `m_cancellation`, if there is one, and `m_timeout` in milliseconds. -/
structure Config where
  cancellation : Bool
  timeout : Option Int
  deriving DecidableEq, Repr

/-- A `SubscriptionEntry`; `subscription` is the call of `Subscribe` that made it, counted over
all calls, and `callback` whether the pointer is still there. -/
structure Entry where
  subscription : Nat
  callback : Bool := true
  mutex : SpinLock := {}
  deriving DecidableEq, Repr

/-- What `invokeAfter` has made: the timer waits for the clock to reach `due`. -/
structure Timer where
  due : Int
  fired : Bool := false
  deriving DecidableEq, Repr

/-- Which call of `isExpired`: the one of `Subscribe` or the one of `installSubscriptions`. -/
inductive Test where
  | first
  | second
  deriving DecidableEq, Repr

/-- A call at one of its places.
* `subscribe`: before `m_mutex`; `testCancelled`, `testTime`: at the two sides of `isExpired`;
  `late`: in the callback that `Subscribe` runs; `install`, `link`: at the timer and at the
  cancellation of `installSubscriptions`; `linked`: behind a `subscribe` of the cancellation that
  has called back; `leave`: at the end of `Subscribe`, with `m_mutex`.
* `unsubscribe`: before the mutex of the entry.
* `cancel`: before the section of `CancellationState::cancel`; `notify`: in its loop.
* `invoke`: before `m_mutex` in `invokeCallbacks`; `walk`: in its loop, before the entry at the
  place; `calling`: in the callback of that entry. -/
inductive Frame where
  | subscribe
  | testCancelled (test : Test)
  | testTime (test : Test)
  | late
  | install
  | link
  | linked
  | leave
  | unsubscribe (index : Nat)
  | cancel
  | notify
  | invoke
  | walk (index : Nat)
  | calling (index : Nat)
  deriving DecidableEq, Repr

/-- `elapsed` is `Clock::now() - m_creationTime` in ticks of the clock.  Of the cancellation the
state has its flag, whether its mutex is held over a callback, and whether the expiration is in
its list.  `subscribed` counts the subscriptions, `invocations` are those whose callback has been
started and `unsubscribed` those an `unsubscribe` has reached. -/
structure State where
  threads : List (List Frame)
  elapsed : Nat := 0
  mutex : SpinLock := {}
  callbacksAreInvoked : Bool := false
  subscriptions : List Entry := []
  timer : Option Timer := none
  cancellationSubscription : Bool := false
  isCancelled : Bool := false
  cancellationMutex : Bool := false
  listed : Bool := false
  subscribed : Nat := 0
  invocations : List Nat := []
  unsubscribed : List Nat := []
  deriving DecidableEq, Repr

/-- What a thread may call; a `subscribe` says whether its callback is not null. -/
inductive Call where
  | subscribe (callback : Bool)
  | unsubscribe (handle : Option Nat)
  | cancel
  deriving DecidableEq, Repr

/-- `fire` is the callback of the timer, on a thread that runs nothing. -/
inductive Action where
  | call (thread : Nat) (call : Call)
  | work (thread : Nat)
  | fire (thread : Nat)
  | tick (ticks : Nat)
  deriving DecidableEq, Repr

def initial (threads : Nat) : State where
  threads := .replicate threads []

/-- `system_clock` counts in steps of 100 ns. -/
def ticksPerMillisecond : Nat := 10000

def Frame.isCallback : Frame → Bool
  | calling _ | late => true
  | _                => false

/-- A thread that runs nothing may call anything, and a callback may unsubscribe. -/
def mayCall : List Frame → Call → Bool
  | [], _                     => true
  | frame :: _, .unsubscribe _ => frame.isCallback
  | _ :: _, _                 => false

/-- `timeIsOver`, `elapsed` ticks after the creation. -/
def Config.timeIsOver (c : Config) (elapsed : Nat) : Bool :=
  match c.timeout with
  | none         => false
  | some timeout => timeout == 0 || timeout * ticksPerMillisecond ≤ (elapsed : Int)

namespace State

def isExpired (s : State) (c : Config) : Bool :=
  c.cancellation && s.isCancelled || c.timeIsOver s.elapsed

def setStack (s : State) (thread : Nat) (stack : List Frame) : State :=
  { s with threads := s.threads.set thread stack }

def setEntry (s : State) (index : Nat) (entry : Entry) : State :=
  { s with subscriptions := s.subscriptions.set index entry }

end State

/-- The start of a call, up to its first lock. -/
def begin (c : Config) (s : State) (thread : Nat) (stack : List Frame) : Call → Option State
  | .subscribe callback =>
      if callback then some (s.setStack thread (.subscribe :: stack)) else some s
  | .unsubscribe none => some s
  | .unsubscribe (some index) =>
      if index < s.subscriptions.length then
        some (s.setStack thread (.unsubscribe index :: stack))
      else none
  | .cancel => if c.cancellation then some (s.setStack thread (.cancel :: stack)) else none

/-- Where `isExpired` has been found to hold: `Subscribe` calls back, and `installSubscriptions`
installs nothing. -/
def expired (s : State) (thread : Nat) (rest : List Frame) : Test → State
  | .first =>
      State.setStack { s with
        subscribed := s.subscribed + 1
        invocations := s.invocations ++ [s.subscribed] } thread (.late :: rest)
  | .second => s.setStack thread (.leave :: rest)

def notExpired (s : State) (thread : Nat) (rest : List Frame) : Test → State
  | .first =>
      State.setStack { s with
        subscriptions := s.subscriptions ++ [{ subscription := s.subscribed }]
        subscribed := s.subscribed + 1 } thread (.testCancelled .second :: rest)
  | .second => s.setStack thread (.install :: rest)

/-- `m_timeout && !m_timerSubscription`, and time left for a timer. -/
def installTimer (c : Config) (s : State) : State :=
  match c.timeout, s.timer with
  | some timeout, none =>
      let timePass : Int := s.elapsed / ticksPerMillisecond
      if timePass < timeout then
        { s with timer := some {
            due := s.elapsed + (timeout - timePass) * ticksPerMillisecond } }
      else s
  | _, _ => s

/-- What the call on top of the stack does next; there is no step while it spins. -/
def work (c : Config) (s : State) (thread : Nat) (rest : List Frame) : Frame → Option State
  | .subscribe =>
      (s.mutex.lock thread).map fun mutex =>
        State.setStack { s with mutex := mutex } thread (.testCancelled .first :: rest)
  | .testCancelled test =>
      if c.cancellation then
        if s.cancellationMutex then none
        else if s.isCancelled then some (expired s thread rest test)
        else some (s.setStack thread (.testTime test :: rest))
      else some (s.setStack thread (.testTime test :: rest))
  | .testTime test =>
      if c.timeIsOver s.elapsed then some (expired s thread rest test)
      else some (notExpired s thread rest test)
  | .late    => some (s.setStack thread (.leave :: rest))
  | .install => some ((installTimer c s).setStack thread (.link :: rest))
  | .link =>
      if c.cancellation && !s.cancellationSubscription then
        if s.cancellationMutex then none
        else if s.isCancelled then
          some (State.setStack { s with cancellationMutex := true } thread
            (.invoke :: .linked :: rest))
        else
          some (State.setStack { s with listed := true, cancellationSubscription := true } thread
            (.leave :: rest))
      else some (s.setStack thread (.leave :: rest))
  | .linked =>
      some (State.setStack { s with
        cancellationMutex := false, cancellationSubscription := true } thread (.leave :: rest))
  | .leave => some (State.setStack { s with mutex := s.mutex.unlock } thread rest)
  | .unsubscribe index =>
      s.subscriptions[index]?.bind fun entry =>
        (entry.mutex.lock thread).map fun mutex =>
          (State.setEntry { s with unsubscribed := s.unsubscribed ++ [entry.subscription] } index
            { entry with callback := false, mutex := mutex.unlock }).setStack thread rest
  | .cancel =>
      if s.cancellationMutex then none
      else if s.isCancelled then some (s.setStack thread rest)
      else some (State.setStack { s with isCancelled := true } thread (.notify :: rest))
  | .notify => some (s.setStack thread (if s.listed then .invoke :: rest else rest))
  | .invoke =>
      (s.mutex.lock thread).map fun mutex =>
        if s.callbacksAreInvoked then State.setStack { s with mutex := mutex.unlock } thread rest
        else
          State.setStack { s with mutex := mutex.unlock, callbacksAreInvoked := true } thread
            (.walk 0 :: rest)
  | .walk index =>
      match s.subscriptions[index]? with
      | none       => some (s.setStack thread rest)
      | some entry =>
          (entry.mutex.lock thread).map fun mutex =>
            if entry.callback then
              (State.setEntry { s with invocations := s.invocations ++ [entry.subscription] } index
                { entry with mutex := mutex }).setStack thread (.calling index :: rest)
            else
              (s.setEntry index { entry with mutex := mutex.unlock }).setStack thread
                (.walk (index + 1) :: rest)
  | .calling index =>
      s.subscriptions[index]?.map fun entry =>
        (s.setEntry index { entry with mutex := entry.mutex.unlock }).setStack thread
          (.walk (index + 1) :: rest)

def step (c : Config) (s : State) : Action → Option State
  | .call thread call =>
      match s.threads[thread]? with
      | none       => none
      | some stack => if mayCall stack call then begin c s thread stack call else none
  | .work thread =>
      match s.threads[thread]? with
      | some (frame :: rest) => work c s thread rest frame
      | some [] | none       => none
  | .fire thread =>
      match s.threads[thread]?, s.timer with
      | some [], some timer =>
          if timer.fired || s.elapsed < timer.due then none
          else some (State.setStack { s with timer := some { timer with fired := true } } thread
            [.invoke])
      | _, _ => none
  | .tick ticks => some { s with elapsed := s.elapsed + ticks }

/-! ### What the call on top does -/

inductive Worked (c : Config) (s : State) (thread : Nat) (rest : List Frame) :
    Frame → State → Prop where
  | subscribe {mutex : SpinLock} (hlock : s.mutex.lock thread = some mutex) :
      Worked c s thread rest .subscribe
        (State.setStack { s with mutex := mutex } thread (.testCancelled .first :: rest))
  | cancelled (test : Test) (hc : c.cancellation = true) (hcancelled : s.isCancelled = true) :
      Worked c s thread rest (.testCancelled test) (expired s thread rest test)
  | notCancelled (test : Test) (hcancelled : (c.cancellation && s.isCancelled) = false) :
      Worked c s thread rest (.testCancelled test) (s.setStack thread (.testTime test :: rest))
  | timeIsOver (test : Test) (htime : c.timeIsOver s.elapsed = true) :
      Worked c s thread rest (.testTime test) (expired s thread rest test)
  | timeLeft (test : Test) (htime : c.timeIsOver s.elapsed = false) :
      Worked c s thread rest (.testTime test) (notExpired s thread rest test)
  | late : Worked c s thread rest .late (s.setStack thread (.leave :: rest))
  | install : Worked c s thread rest .install ((installTimer c s).setStack thread (.link :: rest))
  | back (hc : c.cancellation = true) (hsubscription : s.cancellationSubscription = false)
      (hcancelled : s.isCancelled = true) :
      Worked c s thread rest .link
        (State.setStack { s with cancellationMutex := true } thread (.invoke :: .linked :: rest))
  | link (hc : c.cancellation = true) (hcancelled : s.isCancelled = false) :
      Worked c s thread rest .link
        (State.setStack { s with listed := true, cancellationSubscription := true } thread
          (.leave :: rest))
  | linkedBefore (h : (c.cancellation && !s.cancellationSubscription) = false) :
      Worked c s thread rest .link (s.setStack thread (.leave :: rest))
  | linked :
      Worked c s thread rest .linked (State.setStack { s with
        cancellationMutex := false
        cancellationSubscription := true } thread (.leave :: rest))
  | leave :
      Worked c s thread rest .leave (State.setStack { s with mutex := s.mutex.unlock } thread rest)
  | unsubscribe {index : Nat} {entry : Entry} {mutex : SpinLock}
      (hentry : s.subscriptions[index]? = some entry)
      (hlock : entry.mutex.lock thread = some mutex) :
      Worked c s thread rest (.unsubscribe index)
        ((State.setEntry { s with unsubscribed := s.unsubscribed ++ [entry.subscription] } index
          { entry with callback := false, mutex := mutex.unlock }).setStack thread rest)
  | cancelAgain : Worked c s thread rest .cancel (s.setStack thread rest)
  | cancel :
      Worked c s thread rest .cancel
        (State.setStack { s with isCancelled := true } thread (.notify :: rest))
  | notify :
      Worked c s thread rest .notify
        (s.setStack thread (if s.listed then .invoke :: rest else rest))
  | invokeAgain {mutex : SpinLock} (hlock : s.mutex.lock thread = some mutex)
      (hinvoked : s.callbacksAreInvoked = true) :
      Worked c s thread rest .invoke
        (State.setStack { s with mutex := mutex.unlock } thread rest)
  | invoke {mutex : SpinLock} (hlock : s.mutex.lock thread = some mutex)
      (hinvoked : s.callbacksAreInvoked = false) :
      Worked c s thread rest .invoke
        (State.setStack { s with mutex := mutex.unlock, callbacksAreInvoked := true } thread
          (.walk 0 :: rest))
  | finish {index : Nat} (hentry : s.subscriptions[index]? = none) :
      Worked c s thread rest (.walk index) (s.setStack thread rest)
  | call {index : Nat} {entry : Entry} {mutex : SpinLock}
      (hentry : s.subscriptions[index]? = some entry)
      (hlock : entry.mutex.lock thread = some mutex) (hcallback : entry.callback = true) :
      Worked c s thread rest (.walk index)
        ((State.setEntry { s with invocations := s.invocations ++ [entry.subscription] } index
          { entry with mutex := mutex }).setStack thread (.calling index :: rest))
  | pass {index : Nat} {entry : Entry} {mutex : SpinLock}
      (hentry : s.subscriptions[index]? = some entry)
      (hlock : entry.mutex.lock thread = some mutex) (hcallback : entry.callback = false) :
      Worked c s thread rest (.walk index)
        ((s.setEntry index { entry with mutex := mutex.unlock }).setStack thread
          (.walk (index + 1) :: rest))
  | called {index : Nat} {entry : Entry} (hentry : s.subscriptions[index]? = some entry) :
      Worked c s thread rest (.calling index)
        ((s.setEntry index { entry with mutex := entry.mutex.unlock }).setStack thread
          (.walk (index + 1) :: rest))

theorem worked_of_work {c : Config} {s s' : State} {thread : Nat} {rest : List Frame}
    {frame : Frame} (h : work c s thread rest frame = some s') :
    Worked c s thread rest frame s' := by
  cases frame with
  | subscribe =>
      obtain ⟨mutex, hlock, rfl⟩ := Option.map_eq_some_iff.1 h
      exact .subscribe hlock
  | testCancelled test =>
      rw [work] at h
      split at h
      next hc =>
        split at h
        next => cases h
        next =>
          split at h
          next hcancelled =>
            obtain rfl := Option.some.inj h
            exact .cancelled test hc hcancelled
          next hcancelled =>
            obtain rfl := Option.some.inj h
            exact .notCancelled test (by rw [eq_false_of_ne_true hcancelled, Bool.and_false])
      next hc =>
        obtain rfl := Option.some.inj h
        exact .notCancelled test (by rw [eq_false_of_ne_true hc, Bool.false_and])
  | testTime test =>
      rw [work] at h
      split at h
      next htime =>
        obtain rfl := Option.some.inj h
        exact .timeIsOver test htime
      next htime =>
        obtain rfl := Option.some.inj h
        exact .timeLeft test (eq_false_of_ne_true htime)
  | late =>
      obtain rfl := Option.some.inj h
      exact .late
  | install =>
      obtain rfl := Option.some.inj h
      exact .install
  | link =>
      rw [work] at h
      split at h
      next hlink =>
        obtain ⟨hc, hsubscription⟩ := Bool.and_eq_true_iff.1 hlink
        split at h
        next => cases h
        next =>
          split at h
          next hcancelled =>
            obtain rfl := Option.some.inj h
            exact .back hc (by simpa using hsubscription) hcancelled
          next hcancelled =>
            obtain rfl := Option.some.inj h
            exact .link hc (eq_false_of_ne_true hcancelled)
      next hlink =>
        obtain rfl := Option.some.inj h
        exact .linkedBefore (eq_false_of_ne_true hlink)
  | linked =>
      obtain rfl := Option.some.inj h
      exact .linked
  | leave =>
      obtain rfl := Option.some.inj h
      exact .leave
  | unsubscribe index =>
      obtain ⟨entry, hentry, h⟩ := Option.bind_eq_some_iff.1 h
      obtain ⟨mutex, hlock, rfl⟩ := Option.map_eq_some_iff.1 h
      exact .unsubscribe hentry hlock
  | cancel =>
      rw [work] at h
      split at h
      next => cases h
      next =>
        split at h
        next =>
          obtain rfl := Option.some.inj h
          exact .cancelAgain
        next =>
          obtain rfl := Option.some.inj h
          exact .cancel
  | notify =>
      obtain rfl := Option.some.inj h
      exact .notify
  | invoke =>
      obtain ⟨mutex, hlock, rfl⟩ := Option.map_eq_some_iff.1 h
      split
      next hinvoked => exact .invokeAgain hlock hinvoked
      next hinvoked => exact .invoke hlock (eq_false_of_ne_true hinvoked)
  | walk index =>
      rw [work] at h
      split at h
      next hentry =>
        obtain rfl := Option.some.inj h
        exact .finish hentry
      next entry hentry =>
        obtain ⟨mutex, hlock, rfl⟩ := Option.map_eq_some_iff.1 h
        split
        next hcallback => exact .call hentry hlock hcallback
        next hcallback => exact .pass hentry hlock (eq_false_of_ne_true hcallback)
  | calling index =>
      obtain ⟨entry, hentry, rfl⟩ := Option.map_eq_some_iff.1 h
      exact .called hentry

end MyEngine.Utils.Expiration
