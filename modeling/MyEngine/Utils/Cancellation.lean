import MyEngine.Support.Runs
import MyEngine.Support.Tally
import MyEngine.Threading.SpinLock

/-!
# Utils — Cancellation

`CancellationState` and `CancellationSubscription` of `cancellation.cpp`: any number of threads
call `cancel`, subscribe, unsubscribe, and move, reset and destroy their subscription objects.  A
callback may do the same while it runs.

* `Frame`: where a call stands; the calls of a thread are a stack.
* `step`: the threads; a section under `m_mutex` or under the mutex of an entry is one step, except
  that the callback it runs ends in a step of its own.
* `Inv`: what the loop of `cancel` has passed is settled, what it has not is untouched.
-/

namespace MyEngine.Utils.Cancellation

open Runs Threading

/-- A `SubscriptionEntry`; `subscription` is the call of `subscribe` that made it, counted over
all calls, and `callback` whether the pointer is still there. -/
structure Entry where
  subscription : Nat
  callback : Bool := true
  mutex : RecursiveSpinLock := {}
  deriving DecidableEq, Repr

/-- A `CancellationSubscription`: whether it has `m_cancellation`, and `m_subscriptionHandle` as
the place of the entry, where `none` is the handle `0`. -/
structure Subscription where
  cancellation : Bool := false
  subscriptionHandle : Option Nat := none
  deriving DecidableEq, Repr

/-- A call at one of its places.
* `cancel`, `subscribe`: before the section under `m_mutex`.
* `walk`: in the loop of `cancel`, before the entry at the place; `calling`: in its callback.
* `late`: in the callback that `subscribe` runs.
* `unsubscribe`: before the mutex of the entry.
* `assign`, `assigned`: in `operator=`, before that mutex and behind the call. -/
inductive Frame (η : Type) where
  | cancel
  | walk (index : Nat)
  | calling (index : Nat)
  | subscribe (object : η)
  | late (object : η)
  | unsubscribe (index : Nat)
  | assign (index : Nat) (object other : η)
  | assigned (object other : η)
  deriving DecidableEq, Repr

/-- `subscribed` counts the subscriptions, `invocations` are those whose callback has been
started and `unsubscribed` those an `unsubscribe` has reached. -/
structure State (η : Type) where
  threads : List (List (Frame η))
  mutex : Bool := false
  isCancelled : Bool := false
  subscriptions : List Entry := []
  objects : η → Option Subscription := fun _ => none
  subscribed : Nat := 0
  invocations : List Nat := []
  unsubscribed : List Nat := []

/-- What a thread may call; `subscribe` is given the object its result is made in, and whether
its callback is not null. -/
inductive Call (η : Type) where
  | cancel
  | construct (object : η)
  | subscribe (callback : Bool) (object : η)
  | unsubscribe (handle : Option Nat)
  | reset (object : η)
  | destroy (object : η)
  | moveConstruct (object other : η)
  | moveAssign (object other : η)

inductive Action (η : Type) where
  | call (thread : Nat) (call : Call η)
  | work (thread : Nat)

variable {η : Type}

def initial (η : Type) (threads : Nat) : State η where
  threads := .replicate threads []

/-- The entry `operator bool` and `reset` look for. -/
def Subscription.entry (object : Subscription) : Option Nat :=
  if object.cancellation then object.subscriptionHandle else none

def Frame.isCallback : Frame η → Bool
  | calling _ | late _ => true
  | _                  => false

/-- The thread runs nothing, or the callback of the call on top. -/
def mayCall : List (Frame η) → Bool
  | []         => true
  | frame :: _ => frame.isCallback

namespace State

def setStack (s : State η) (thread : Nat) (stack : List (Frame η)) : State η :=
  { s with threads := s.threads.set thread stack }

def setEntry (s : State η) (index : Nat) (entry : Entry) : State η :=
  { s with subscriptions := s.subscriptions.set index entry }

/-- `setUnsubscribed` of the entry, whose mutex the thread takes and leaves. -/
def setUnsubscribed (s : State η) (thread index : Nat) : Option (State η) :=
  s.subscriptions[index]?.bind fun entry =>
    (entry.mutex.lock thread).map fun mutex =>
      setEntry { s with unsubscribed := s.unsubscribed ++ [entry.subscription] } index
        { entry with callback := false, mutex := mutex.unlock }

def hasObject (s : State η) (object : η) : Bool := (s.objects object).isSome

variable [DecidableEq η]

def setObject (s : State η) (object : η) (subscription : Option Subscription) : State η :=
  { s with objects := Function.update s.objects object subscription }

/-- The moves of `operator=`, in their order, also where the two are one object. -/
def moveObject (s : State η) (object other : η) : Option (State η) :=
  (s.objects other).map fun subscription =>
    (s.setObject other (some {})).setObject object (some subscription)

end State

variable [DecidableEq η]

/-- The start of a call, up to its first section. -/
def begin (s : State η) (thread : Nat) (stack : List (Frame η)) : Call η → Option (State η)
  | .cancel => some (s.setStack thread (.cancel :: stack))
  | .construct object => if s.hasObject object then none else some (s.setObject object (some {}))
  | .subscribe callback object =>
      if s.hasObject object then none
      else if callback then some (s.setStack thread (.subscribe object :: stack))
      else some (s.setObject object (some { cancellation := true }))
  | .unsubscribe none => some s
  | .unsubscribe (some index) =>
      if index < s.subscriptions.length then
        some (s.setStack thread (.unsubscribe index :: stack))
      else none
  | .reset object =>
      (s.objects object).map fun subscription =>
        match subscription.entry with
        | none       => s
        | some index => (s.setObject object (some {})).setStack thread (.unsubscribe index :: stack)
  | .destroy object =>
      (s.objects object).map fun subscription =>
        match subscription.entry with
        | none       => s.setObject object none
        | some index => (s.setObject object none).setStack thread (.unsubscribe index :: stack)
  | .moveConstruct object other =>
      if s.hasObject object then none else s.moveObject object other
  | .moveAssign object other =>
      (s.objects object).bind fun subscription =>
        match subscription.entry with
        | none       => s.moveObject object other
        | some index => some (s.setStack thread (.assign index object other :: stack))

/-- What the call on top of the stack does next. -/
def work (s : State η) (thread : Nat) (rest : List (Frame η)) : Frame η → Option (State η)
  | .cancel =>
      if s.mutex then none
      else if s.isCancelled then some (s.setStack thread rest)
      else some (State.setStack { s with isCancelled := true } thread (.walk 0 :: rest))
  | .walk index =>
      match s.subscriptions[index]? with
      | none       => some (s.setStack thread rest)
      | some entry =>
          (entry.mutex.lock thread).map fun mutex =>
            if entry.callback then
              (State.setEntry { s with invocations := s.invocations ++ [entry.subscription] } index
                { entry with mutex := mutex }).setStack thread (.calling index :: rest)
            else
              (s.setEntry index { entry with mutex := mutex.unlock }).setStack thread
                (.walk (index + 1) :: rest)
  | .calling index =>
      s.subscriptions[index]?.map fun entry =>
        (s.setEntry index { entry with mutex := entry.mutex.unlock }).setStack thread
          (.walk (index + 1) :: rest)
  | .subscribe object =>
      if s.mutex then none
      else if s.isCancelled then
        some (State.setStack { s with
          mutex := true
          subscribed := s.subscribed + 1
          invocations := s.invocations ++ [s.subscribed] } thread (.late object :: rest))
      else
        some ((State.setObject { s with
          subscriptions := s.subscriptions ++ [{ subscription := s.subscribed }]
          subscribed := s.subscribed + 1 } object
            (some { cancellation := true, subscriptionHandle := s.subscriptions.length })).setStack
          thread rest)
  | .late object =>
      some ((State.setObject { s with mutex := false } object
        (some { cancellation := true })).setStack thread rest)
  | .unsubscribe index => (s.setUnsubscribed thread index).map (·.setStack thread rest)
  | .assign index object other =>
      (s.setUnsubscribed thread index).map (·.setStack thread (.assigned object other :: rest))
  | .assigned object other => (s.moveObject object other).map (·.setStack thread rest)

def step (s : State η) : Action η → Option (State η)
  | .call thread call =>
      match s.threads[thread]? with
      | none       => none
      | some stack => if mayCall stack then begin s thread stack call else none
  | .work thread =>
      match s.threads[thread]? with
      | some (frame :: rest) => work s thread rest frame
      | some [] | none       => none

end MyEngine.Utils.Cancellation
