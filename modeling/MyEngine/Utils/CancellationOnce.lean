import MyEngine.Support.Notifier
import MyEngine.Utils.Cancellation

/-!
# Utils — CancellationOnce

Every subscription of a `CancellationState` is notified once.

* `State.notifier`: what of the state takes part in that, the mutexes and objects apart.
* `Linked.step`: a step of the threads is a step of the one-shot ledger or none.
-/

namespace MyEngine.Utils.Cancellation

open Runs OneShot OneShot.Notifier

variable {η : Type}

/-- The call is in the loop of `cancel`. -/
def Frame.walks : Frame η → Nat
  | walk _ | calling _ => 1
  | _                  => 0

/-- How many entries that loop has passed. -/
def Frame.passed : Frame η → Nat
  | walk index    => index
  | calling index => index + 1
  | _             => 0

def frameWalk (η : Type) : Walk (Frame η) where
  walks := Frame.walks
  passed := Frame.passed
  passed_of_walks f hf := by
    cases f with
    | walk index | calling index => cases hf
    | cancel | subscribe | late | unsubscribe | assign | assigned => rfl

/-- What the ledger keeps of an entry, its mutex apart. -/
def Entry.seen (e : Entry) : Nat × Bool := (e.subscription, e.callback)

def State.notifier (s : State η) : Notifier (Frame η) where
  threads := s.threads
  started := s.isCancelled
  entries := s.subscriptions.map Entry.seen
  subscribed := s.subscribed
  notified := s.invocations
  left := s.unsubscribed

abbrev State.Linked (s : State η) : Prop := Notifier.Linked (frameWalk η) s.notifier

abbrev State.Refines (s s' : State η) : Prop :=
  Notifier.Refines (frameWalk η) s.notifier s'.notifier

namespace State.Linked

variable {s s' : State η} {thread : Nat} {rest : List (Frame η)} {frame : Frame η}

theorem seen_getElem? {index : Nat} {entry : Entry} (h : s.subscriptions[index]? = some entry) :
    s.notifier.entries[index]? = some entry.seen :=
  List.getElem?_map .. ▸ congrArg (Option.map Entry.seen) h

/-- A step that changes stacks, objects and mutexes only. -/
theorem quiet (h : s.Linked) (top top' : List (Frame η))
    (hstack : s.threads[thread]? = some (top ++ rest))
    (hthreads : s'.threads = s.threads.set thread (top' ++ rest))
    (hwalks : tally Frame.walks top' = tally Frame.walks top)
    (hpassed : tally Frame.passed top' = tally Frame.passed top)
    (hcancelled : s'.isCancelled = s.isCancelled)
    (hseen : s'.subscriptions.map Entry.seen = s.subscriptions.map Entry.seen)
    (hsubscribed : s'.subscribed = s.subscribed) (hinvocations : s'.invocations = s.invocations)
    (hunsubscribed : s'.unsubscribed = s.unsubscribed) : s.Refines s' :=
  Notifier.Linked.quiet h (loop_set top top' hstack hthreads hwalks hpassed) hcancelled hseen
    hsubscribed hinvocations hunsubscribed

theorem setUnsubscribed {index : Nat} (h : s.Linked)
    (hs : s.setUnsubscribed thread index = some s') (top top' : List (Frame η))
    (hstack : s.threads[thread]? = some (top ++ rest))
    (hwalks : tally Frame.walks top' = tally Frame.walks top)
    (hpassed : tally Frame.passed top' = tally Frame.passed top) :
    s.Refines (s'.setStack thread (top' ++ rest)) := by
  obtain ⟨entry, hentry, hs⟩ := Option.bind_eq_some_iff.1 hs
  obtain ⟨mutex, -, rfl⟩ := Option.map_eq_some_iff.1 hs
  exact Notifier.Linked.leave h (seen_getElem? hentry)
    (loop_set top top' hstack rfl hwalks hpassed) rfl List.map_set rfl rfl rfl

variable [DecidableEq η]

theorem work (h : s.Linked) (hstack : s.threads[thread]? = some (frame :: rest))
    (hs : work s thread rest frame = some s') : s.Refines s' := by
  cases frame with
  | cancel =>
      rw [Cancellation.work] at hs
      split at hs
      · cases hs
      · split at hs
        · obtain rfl := Option.some.inj hs
          exact h.quiet [.cancel] [] hstack rfl rfl rfl rfl rfl rfl rfl rfl
        · next hc =>
          obtain rfl := Option.some.inj hs
          exact Notifier.Linked.start h (eq_false_of_ne_true hc) hstack rfl rfl rfl rfl rfl rfl rfl
            rfl rfl
  | walk index =>
      rw [Cancellation.work] at hs
      cases hentry : s.subscriptions[index]? with
      | none =>
          rw [hentry] at hs
          obtain rfl := Option.some.inj hs
          refine Notifier.Linked.finish h hstack rfl ?_ rfl rfl rfl rfl rfl rfl
          rw [State.notifier]
          dsimp only
          rw [List.length_map]
          exact List.getElem?_eq_none_iff.1 hentry
      | some entry =>
          rw [hentry] at hs
          obtain ⟨mutex, -, rfl⟩ := Option.map_eq_some_iff.1 hs
          have hseen := seen_getElem? hentry
          rw [Entry.seen] at hseen
          have hset : ∀ mutex', (s.subscriptions.set index { entry with mutex := mutex' }).map
              Entry.seen = s.subscriptions.map Entry.seen :=
            fun mutex' => map_set_of_eq hentry rfl
          split
          · next hcallback =>
            rw [hcallback] at hseen
            exact Notifier.Linked.notify h hstack rfl rfl hseen rfl rfl rfl rfl (hset _) rfl rfl rfl
          · next hcallback =>
            rw [eq_false_of_ne_true hcallback] at hseen
            exact Notifier.Linked.pass h hstack rfl rfl hseen rfl rfl rfl rfl (hset _) rfl rfl rfl
  | calling index =>
      obtain ⟨entry, hentry, rfl⟩ := Option.map_eq_some_iff.1 hs
      exact h.quiet [.calling index] [.walk (index + 1)] hstack rfl rfl rfl rfl
        (map_set_of_eq hentry rfl) rfl rfl rfl
  | subscribe object =>
      rw [Cancellation.work] at hs
      split at hs
      · cases hs
      · split at hs
        · obtain rfl := Option.some.inj hs
          exact Notifier.Linked.atOnce h (loop_set [.subscribe object] [.late object] hstack rfl rfl
            rfl) rfl rfl rfl rfl rfl
        · next hc =>
          obtain rfl := Option.some.inj hs
          exact Notifier.Linked.enter h (loop_set [.subscribe object] [] hstack rfl rfl rfl)
            (eq_false_of_ne_true hc) rfl List.map_append rfl rfl rfl
  | late object =>
      obtain rfl := Option.some.inj hs
      exact h.quiet [.late object] [] hstack rfl rfl rfl rfl rfl rfl rfl rfl
  | unsubscribe index =>
      obtain ⟨s₁, hs₁, rfl⟩ := Option.map_eq_some_iff.1 hs
      exact h.setUnsubscribed hs₁ [.unsubscribe index] [] hstack rfl rfl
  | assign index object other =>
      obtain ⟨s₁, hs₁, rfl⟩ := Option.map_eq_some_iff.1 hs
      exact h.setUnsubscribed hs₁ [.assign index object other] [.assigned object other] hstack rfl
        rfl
  | assigned object other =>
      obtain ⟨s₁, hs₁, rfl⟩ := Option.map_eq_some_iff.1 hs
      obtain ⟨subscription, -, rfl⟩ := Option.map_eq_some_iff.1 hs₁
      exact h.quiet [.assigned object other] [] hstack rfl rfl rfl rfl rfl rfl rfl rfl

omit [DecidableEq η] in
/-- A call that goes no further than the objects. -/
theorem objects (h : s.Linked) (f : η → Option Subscription) :
    s.Refines { s with objects := f } :=
  Notifier.Linked.quiet h ⟨rfl, rfl⟩ rfl rfl rfl rfl rfl

omit [DecidableEq η] in
/-- A call that waits for its first section. -/
theorem push (h : s.Linked) (f : η → Option Subscription) (hstack : s.threads[thread]? = some rest)
    (hframe : frame.walks = 0) :
    s.Refines (State.setStack { s with objects := f } thread (frame :: rest)) := by
  have hpassed : frame.passed = 0 := (frameWalk η).passed_of_walks frame hframe
  refine h.quiet [] [frame] hstack rfl ?_ ?_ rfl rfl rfl rfl rfl
  · rw [tally_cons, hframe]
    rfl
  · rw [tally_cons, hpassed]
    rfl

theorem moveObject (h : s.Linked) {object other : η}
    (hs : s.moveObject object other = some s') : s.Refines s' := by
  obtain ⟨subscription, -, rfl⟩ := Option.map_eq_some_iff.1 hs
  exact h.objects _

theorem begin {call : Call η} (h : s.Linked) (hstack : s.threads[thread]? = some rest)
    (hs : begin s thread rest call = some s') : s.Refines s' := by
  cases call with
  | cancel =>
      obtain rfl := Option.some.inj hs
      exact h.push s.objects hstack rfl
  | construct object =>
      rw [Cancellation.begin] at hs
      split at hs
      · cases hs
      · obtain rfl := Option.some.inj hs
        exact h.objects _
  | subscribe callback object =>
      rw [Cancellation.begin] at hs
      split at hs
      · cases hs
      · split at hs
        · obtain rfl := Option.some.inj hs
          exact h.push s.objects hstack rfl
        · obtain rfl := Option.some.inj hs
          exact h.objects _
  | unsubscribe handle =>
      cases handle with
      | none =>
          obtain rfl := Option.some.inj hs
          exact h.objects s.objects
      | some index =>
          rw [Cancellation.begin] at hs
          split at hs
          · obtain rfl := Option.some.inj hs
            exact h.push s.objects hstack rfl
          · cases hs
  | reset object =>
      obtain ⟨subscription, -, rfl⟩ := Option.map_eq_some_iff.1 hs
      split
      · exact h.objects s.objects
      · exact h.push _ hstack rfl
  | destroy object =>
      obtain ⟨subscription, -, rfl⟩ := Option.map_eq_some_iff.1 hs
      split
      · exact h.objects _
      · exact h.push _ hstack rfl
  | moveConstruct object other =>
      rw [Cancellation.begin] at hs
      split at hs
      · cases hs
      · exact h.moveObject hs
  | moveAssign object other =>
      obtain ⟨subscription, -, hs⟩ := Option.bind_eq_some_iff.1 hs
      split at hs
      · exact h.moveObject hs
      · obtain rfl := Option.some.inj hs
        exact h.push s.objects hstack rfl

theorem step {a : Action η} (h : s.Linked) (hs : step s a = some s') : s.Refines s' := by
  cases a with
  | call thread call =>
      rw [Cancellation.step] at hs
      split at hs
      · cases hs
      · next stack hstack =>
        split at hs
        · exact h.begin hstack hs
        · cases hs
  | work thread =>
      rw [Cancellation.step] at hs
      split at hs
      · next frame rest hstack => exact h.work hstack hs
      · cases hs
      · cases hs

end State.Linked

/-- No operation is in progress. -/
def State.Quiet (s : State η) : Prop := ∀ stack ∈ s.threads, stack = []

variable [DecidableEq η] {s s' : State η}

theorem linked_of_steps {threads : Nat} (h : Steps step Free (initial η threads) s) :
    s.Linked :=
  h.invariant (fun h _ hs => (h.step hs).1) (Notifier.Linked.init threads)

/-- What has been unsubscribed stays so, and is not started any more. -/
theorem count_of_unsubscribed {id : Nat} (hs : Steps step Free s s') (h : s.Linked)
    (hid : id ∈ s.unsubscribed) : s'.invocations.count id = s.invocations.count id := by
  induction hs with
  | refl => rfl
  | more _ hstep _ ih =>
      obtain ⟨h₁, hledger⟩ := h.step hstep
      obtain ⟨hsubset, hcount⟩ := left_of_refines hledger h.ledger hid
      exact (ih h₁ hsubset).trans hcount

/-- Every callback is started once at most, is not started once it is unsubscribed, and has been
started when the state is cancelled and no operation is in progress. -/
theorem callbacks_once {threads : Nat} (h : Steps step Free (initial η threads) s) :
    (∀ id, s.invocations.count id ≤ 1) ∧
    (∀ id ∈ s.unsubscribed, ∀ s', Steps step Free s s' →
      s'.invocations.count id = s.invocations.count id) ∧
    (s.Quiet → s.isCancelled = true → ∀ id < s.subscribed, id ∉ s.unsubscribed →
      s.invocations.count id = 1) := by
  have hlinked := linked_of_steps h
  refine ⟨hlinked.ledger.count_le_one, fun id hid s' hs => ?_, fun hquiet hc id hid hstays => ?_⟩
  · exact count_of_unsubscribed hs hlinked hid
  · exact hlinked.ledger.count_eq_one hc (loop_of_idle (n := s.notifier) hquiet).2 hid hstays

/-- Two threads: of three subscriptions the second leaves while the loop of `cancel` is in the
callback of the first, and the third comes too late for the list. -/
theorem three_subscriptions : ∃ s : State Nat, s.Quiet ∧ s.isCancelled = true ∧
    s.invocations.count 0 = 1 ∧ s.invocations.count 1 ≤ 1 ∧ s.invocations.count 2 = 1 := by
  obtain ⟨s, hs, hthreads, hc, hsubscribed, hunsubscribed⟩ : ∃ s, exec step (initial Nat 2) [
      .call 0 (.subscribe true 0), .work 0, .call 0 (.subscribe true 1), .work 0,
      .call 0 .cancel, .work 0, .work 0, .call 0 (.reset 1), .work 0,
      .call 1 (.subscribe true 2), .work 1, .work 1, .work 0, .work 0, .work 0] = some s ∧
      s.threads = [[], []] ∧ s.isCancelled = true ∧ s.subscribed = 3 ∧ s.unsubscribed = [1] :=
    ⟨_, rfl, rfl, rfl, rfl, rfl⟩
  have hquiet : s.Quiet := by
    intro stack hstack
    rw [hthreads] at hstack
    exact List.eq_of_mem_replicate (n := 2) hstack
  obtain ⟨hone, -, hall⟩ := callbacks_once (exec_steps (allowed_free _ _) hs)
  have hnotified := hall hquiet hc
  rw [hsubscribed, hunsubscribed] at hnotified
  exact ⟨s, hquiet, hc, hnotified 0 (by decide) (by decide), hone 1,
    hnotified 2 (by decide) (by decide)⟩

end MyEngine.Utils.Cancellation
