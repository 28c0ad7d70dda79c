import MyEngine.Utils.ExpirationLocks

/-!
# Utils — ExpirationLedger

The subscriptions of an `ExpirationState` as a one-shot ledger.

* `State.notifier`: what the ledger sees of the state.
* `State.Linked.work`: every step of a thread is one of the ledger, or none.
-/

namespace MyEngine.Utils.Expiration

open Runs OneShot OneShot.Notifier Threading

/-- The call is in the loop of `invokeCallbacks`. -/
def Frame.walks : Frame → Nat
  | walk _ | calling _ => 1
  | _                  => 0

/-- How many entries that loop has passed. -/
def Frame.passed : Frame → Nat
  | walk index    => index
  | calling index => index + 1
  | _             => 0

def frameWalk : Walk Frame where
  walks := Frame.walks
  passed := Frame.passed
  passed_of_walks f hf := by
    cases f with
    | walk index | calling index => cases hf
    | _ => rfl

/-- What the ledger keeps of an entry, its mutex apart. -/
def Entry.seen (e : Entry) : Nat × Bool := (e.subscription, e.callback)

def State.notifier (s : State) : Notifier Frame where
  threads := s.threads
  started := s.callbacksAreInvoked
  entries := s.subscriptions.map Entry.seen
  subscribed := s.subscribed
  notified := s.invocations
  left := s.unsubscribed

abbrev State.Linked (s : State) : Prop := Notifier.Linked frameWalk s.notifier

abbrev State.Refines (s s' : State) : Prop := Notifier.Refines frameWalk s.notifier s'.notifier

/-! ### The ledger -/

namespace State.Linked

variable {c : Config} {s s' : State} {thread : Nat} {rest : List Frame} {frame : Frame}

theorem seen_getElem? {index : Nat} {entry : Entry} (h : s.subscriptions[index]? = some entry) :
    s.notifier.entries[index]? = some entry.seen :=
  List.getElem?_map .. ▸ congrArg (Option.map Entry.seen) h

/-- A step that changes stacks, mutexes and what the threads wait for only. -/
theorem quiet (h : s.Linked) (top top' : List Frame)
    (hstack : s.threads[thread]? = some (top ++ rest))
    (hthreads : s'.threads = s.threads.set thread (top' ++ rest))
    (hwalks : tally Frame.walks top' = tally Frame.walks top)
    (hpassed : tally Frame.passed top' = tally Frame.passed top)
    (hstarted : s'.callbacksAreInvoked = s.callbacksAreInvoked)
    (hseen : s'.subscriptions.map Entry.seen = s.subscriptions.map Entry.seen)
    (hsubscribed : s'.subscribed = s.subscribed) (hinvocations : s'.invocations = s.invocations)
    (hunsubscribed : s'.unsubscribed = s.unsubscribed) : s.Refines s' :=
  Notifier.Linked.quiet h (loop_set top top' hstack hthreads hwalks hpassed) hstarted hseen
    hsubscribed hinvocations hunsubscribed

theorem expired (h : s.Linked) (test : Test)
    (hstack : s.threads[thread]? = some (frame :: rest)) (hframe : frame.walks = 0) :
    s.Refines (expired s thread rest test) := by
  have hpassed := frameWalk.passed_of_walks frame hframe
  have hwalks : tally Frame.walks [frame] = 0 := by rw [tally_cons, hframe]; rfl
  have hpassed' : tally Frame.passed [frame] = 0 := by
    rw [tally_cons]
    exact congrArg (· + 0) hpassed
  cases test with
  | first =>
      exact Notifier.Linked.atOnce h (loop_set [frame] [.late] hstack rfl hwalks.symm hpassed'.symm)
        rfl rfl rfl rfl rfl
  | second =>
      exact h.quiet [frame] [.leave] hstack rfl hwalks.symm hpassed'.symm rfl rfl rfl rfl rfl

theorem work (h : s.Linked) (hstack : s.threads[thread]? = some (frame :: rest))
    (hnew : frame = .testTime .first → c.timeIsOver s.elapsed = false →
      s.callbacksAreInvoked = false)
    (hs : Worked c s thread rest frame s') : s.Refines s' := by
  cases hs with
  | subscribe =>
      exact h.quiet [.subscribe] [.testCancelled .first] hstack rfl rfl rfl rfl rfl rfl rfl rfl
  | cancelled test | timeIsOver test => exact h.expired test hstack rfl
  | notCancelled test =>
      exact h.quiet [.testCancelled test] [.testTime test] hstack rfl rfl rfl rfl rfl rfl rfl rfl
  | timeLeft test htime =>
      cases test with
      | first =>
          -- the subscriber is entered; the loop has not started, as the time is not over
          exact Notifier.Linked.enter h (loop_set [.testTime .first] [.testCancelled .second]
            hstack rfl rfl rfl) (hnew rfl htime) rfl List.map_append rfl rfl rfl
      | second =>
          exact h.quiet [.testTime .second] [.install] hstack rfl rfl rfl rfl rfl rfl rfl rfl
  | late => exact h.quiet [.late] [.leave] hstack rfl rfl rfl rfl rfl rfl rfl rfl
  | linked => exact h.quiet [.linked] [.leave] hstack rfl rfl rfl rfl rfl rfl rfl rfl
  | install =>
      have hinstall : s.Refines (s.setStack thread (.link :: rest)) :=
        h.quiet [.install] [.link] hstack rfl rfl rfl rfl rfl rfl rfl rfl
      rw [installTimer]
      split
      · dsimp only
        split <;> exact hinstall
      · exact hinstall
  | back => exact h.quiet [.link] [.invoke, .linked] hstack rfl rfl rfl rfl rfl rfl rfl rfl
  | link | linkedBefore => exact h.quiet [.link] [.leave] hstack rfl rfl rfl rfl rfl rfl rfl rfl
  | leave => exact h.quiet [.leave] [] hstack rfl rfl rfl rfl rfl rfl rfl rfl
  | @unsubscribe index _ _ hentry =>
      exact Notifier.Linked.leave h (seen_getElem? hentry)
        (loop_set [.unsubscribe index] [] hstack rfl rfl rfl) rfl List.map_set rfl rfl rfl
  | cancelAgain => exact h.quiet [.cancel] [] hstack rfl rfl rfl rfl rfl rfl rfl rfl
  | cancel => exact h.quiet [.cancel] [.notify] hstack rfl rfl rfl rfl rfl rfl rfl rfl
  | notify =>
      split
      · exact h.quiet [.notify] [.invoke] hstack rfl rfl rfl rfl rfl rfl rfl rfl
      · exact h.quiet [.notify] [] hstack rfl rfl rfl rfl rfl rfl rfl rfl
  | invokeAgain => exact h.quiet [.invoke] [] hstack rfl rfl rfl rfl rfl rfl rfl rfl
  | invoke _ hinvoked =>
      exact Notifier.Linked.start h hinvoked hstack rfl rfl rfl rfl rfl rfl rfl rfl rfl
  | finish hentry =>
      refine Notifier.Linked.finish h hstack rfl ?_ rfl rfl rfl rfl rfl rfl
      rw [State.notifier]
      dsimp only
      rw [List.length_map]
      exact List.getElem?_eq_none_iff.1 hentry
  | call hentry _ hcallback =>
      have hseen := seen_getElem? hentry
      rw [Entry.seen, hcallback] at hseen
      exact Notifier.Linked.notify h hstack rfl rfl hseen rfl rfl rfl rfl
        (map_set_of_eq hentry rfl) rfl rfl rfl
  | pass hentry _ hcallback =>
      have hseen := seen_getElem? hentry
      rw [Entry.seen, hcallback] at hseen
      exact Notifier.Linked.pass h hstack rfl rfl hseen rfl rfl rfl rfl
        (map_set_of_eq hentry rfl) rfl rfl rfl
  | @called index _ hentry =>
      exact h.quiet [.calling index] [.walk (index + 1)] hstack rfl rfl rfl rfl
        (map_set_of_eq hentry rfl) rfl rfl rfl

end State.Linked

end MyEngine.Utils.Expiration
