import MyEngine.Support.Replace
import MyEngine.Utils.Expiration

/-!
# Utils — ExpirationLocks

Who holds the mutexes of an `ExpirationState`.

* `Shape`: the stacks the threads can have.
* `Locks`: `m_mutex` belongs to the thread that is in `Subscribe`, and the mutex of an entry to
  the thread that runs its callback.
* `apart`, `apart_of_steps`: when a thread asks for a mutex that it holds.
-/

namespace MyEngine.Utils.Expiration

open Runs Threading

/-- The call holds `m_mutex`. -/
def Frame.inside : Frame → Bool
  | testCancelled _ | testTime _ | late | install | link | linked | leave => true
  | _                                                                     => false

def inside (stack : List Frame) : Bool := stack.any Frame.inside

/-- The stack holds the mutex of the entry at the place. -/
def holds (index : Nat) (stack : List Frame) : Bool := stack.any (· == .calling index)

inductive Shape : List Frame → Prop where
  | idle : Shape []
  | base {frame : Frame} (h : frame ≠ .linked) : Shape [frame]
  | nested (index : Nat) {frame : Frame} (h : frame.isCallback = true) :
      Shape [.unsubscribe index, frame]
  | back : Shape [.invoke, .linked]

/-- The owner of the mutex of the entry at the place. -/
def ownerAt (subscriptions : List Entry) (index : Nat) : Option Nat :=
  subscriptions[index]?.bind fun entry => entry.mutex.threadOwner

structure Locks (s : State) : Prop where
  shape : ∀ stack ∈ s.threads, Shape stack
  mutex : Owned s.mutex.threadOwner s.threads inside
  entry : ∀ index, Owned (ownerAt s.subscriptions index) s.threads (holds index)

theorem ownerAt_of_entry {l : List Entry} {index : Nat} {entry : Entry}
    (h : l[index]? = some entry) :
    ownerAt l index = entry.mutex.threadOwner := by
  rw [ownerAt, h]
  rfl

theorem ownerAt_set_self {l : List Entry} {index : Nat} {old entry : Entry}
    (h : l[index]? = some old) : ownerAt (l.set index entry) index = entry.mutex.threadOwner :=
  ownerAt_of_entry (getElem?_replaced h entry)

theorem ownerAt_set_ne {l : List Entry} {index other : Nat} {entry : Entry} (h : other ≠ index) :
    ownerAt (l.set index entry) other = ownerAt l other := by
  rw [ownerAt, List.getElem?_set_ne (Ne.symm h), ownerAt]

/-- An entry whose mutex stays, or is taken and left. -/
theorem ownerAt_set_of_eq {l : List Entry} {index : Nat} {old : Entry} (entry : Entry)
    (h : l[index]? = some old) (hmutex : entry.mutex.threadOwner = old.mutex.threadOwner)
    (other : Nat) : ownerAt (l.set index entry) other = ownerAt l other := by
  by_cases hother : other = index
  · rw [hother, ownerAt_set_self h, ownerAt_of_entry h, hmutex]
  · exact ownerAt_set_ne hother

theorem ownerAt_concat (l : List Entry) (subscription index : Nat) :
    ownerAt (l ++ [{ subscription := subscription }]) index = ownerAt l index := by
  rcases Nat.lt_trichotomy index l.length with hlt | rfl | hgt
  · rw [ownerAt, List.getElem?_append_left hlt, ownerAt]
  · rw [ownerAt, List.getElem?_concat_length, ownerAt, List.getElem?_eq_none (Nat.le_refl _)]
    rfl
  · rw [ownerAt, ownerAt, List.getElem?_eq_none (Nat.le_of_lt hgt), List.getElem?_eq_none]
    rw [List.length_append]
    exact hgt

theorem holds_calling (index other : Nat) :
    holds other [.calling index] = decide (index = other) := by
  by_cases h : index = other
  · subst h
    rw [holds, List.any_cons, beq_self_eq_true, Bool.true_or, decide_eq_true rfl]
  · have hne : (Frame.calling index == .calling other) = false :=
      beq_false_of_ne fun heq => h (Frame.calling.inj heq)
    rw [holds, List.any_cons, hne, decide_eq_false h]
    rfl

theorem installTimer_frame (c : Config) (s : State) : (installTimer c s).threads = s.threads ∧
    (installTimer c s).mutex = s.mutex ∧ (installTimer c s).subscriptions = s.subscriptions := by
  rw [installTimer]
  split
  · dsimp only
    split <;> exact ⟨rfl, rfl, rfl⟩
  · exact ⟨rfl, rfl, rfl⟩

namespace Locks

variable {c : Config} {s s' : State} {thread : Nat} {frame : Frame} {old new rest : List Frame}

theorem init (threads : Nat) : Locks (initial threads) where
  shape _ hstack := List.eq_of_mem_replicate hstack ▸ .idle
  mutex := Owned.replicate rfl
  entry _ := Owned.replicate rfl

theorem shape_of (h : Locks s) (hstack : s.threads[thread]? = some old) : Shape old :=
  h.shape old (List.mem_of_getElem? hstack)

theorem shape_set (h : Locks s) (hshape : Shape new) :
    ∀ stack ∈ s.threads.set thread new, Shape stack :=
  forall_mem_set h.shape hshape

/-- A step of one stack that neither takes nor leaves a mutex. -/
theorem keep (h : Locks s) (hstack : s.threads[thread]? = some old)
    (hthreads : s'.threads = s.threads.set thread new) (hshape : Shape new)
    (hmutex : s'.mutex = s.mutex)
    (howner : ∀ index, ownerAt s'.subscriptions index = ownerAt s.subscriptions index)
    (hinside : inside new = inside old) (hholds : ∀ index, holds index new = holds index old) :
    Locks s' := by
  refine ⟨hthreads ▸ h.shape_set hshape, ?_, fun index => ?_⟩
  · rw [hmutex, hthreads]
    exact h.mutex.keep hstack hinside
  · rw [howner, hthreads]
    exact (h.entry index).keep hstack (hholds index)

/-- The mutex of one entry passes to the thread. -/
theorem enter (h : Locks s) {index : Nat} {entry : Entry} {mutex : SpinLock}
    (hentry : s.subscriptions[index]? = some entry) (hlock : entry.mutex.lock thread = some mutex)
    (hstack : s.threads[thread]? = some [.walk index])
    (hthreads : s'.threads = s.threads.set thread [.calling index]) (hmutex : s'.mutex = s.mutex)
    (hsubs : s'.subscriptions = s.subscriptions.set index { entry with mutex := mutex }) :
    Locks s' := by
  obtain ⟨hfree, rfl⟩ := SpinLock.lock_eq_some hlock
  refine ⟨hthreads ▸ h.shape_set (.base nofun), ?_, fun other => ?_⟩
  · rw [hmutex, hthreads]
    exact h.mutex.keep hstack rfl
  · rw [hsubs, hthreads]
    have howned := h.entry other
    by_cases hother : other = index
    · subst hother
      rw [ownerAt_of_entry hentry, hfree] at howned
      rw [ownerAt_set_self hentry]
      exact howned.take hstack (by rw [holds_calling, decide_eq_true rfl])
    · rw [ownerAt_set_ne hother]
      exact howned.keep hstack (by rw [holds_calling, decide_eq_false (Ne.symm hother)]; rfl)

/-- The thread leaves it again. -/
theorem exit (h : Locks s) {index : Nat} {entry : Entry}
    (hentry : s.subscriptions[index]? = some entry)
    (hstack : s.threads[thread]? = some [.calling index])
    (hthreads : s'.threads = s.threads.set thread [.walk (index + 1)])
    (hmutex : s'.mutex = s.mutex)
    (hsubs : s'.subscriptions =
      s.subscriptions.set index { entry with mutex := entry.mutex.unlock }) : Locks s' := by
  refine ⟨hthreads ▸ h.shape_set (.base nofun), ?_, fun other => ?_⟩
  · rw [hmutex, hthreads]
    exact h.mutex.keep hstack rfl
  · rw [hsubs, hthreads]
    have howned := h.entry other
    by_cases hother : other = index
    · subst hother
      rw [ownerAt_set_self hentry]
      exact howned.release hstack (by rw [holds_calling, decide_eq_true rfl]) rfl
    · rw [ownerAt_set_ne hother]
      exact howned.keep hstack (by rw [holds_calling, decide_eq_false (Ne.symm hother)]; rfl)

/-- `Subscribe` takes `m_mutex`. -/
theorem lock (h : Locks s) {mutex : SpinLock} (hlock : s.mutex.lock thread = some mutex)
    (hstack : s.threads[thread]? = some [.subscribe]) (test : Test) :
    Locks (State.setStack { s with mutex := mutex } thread [.testCancelled test]) := by
  obtain ⟨hfree, rfl⟩ := SpinLock.lock_eq_some hlock
  have howned := h.mutex
  rw [hfree] at howned
  exact ⟨h.shape_set (.base nofun), howned.take hstack rfl,
    fun index => (h.entry index).keep hstack rfl⟩

theorem unlock (h : Locks s) (hstack : s.threads[thread]? = some [.leave]) :
    Locks (State.setStack { s with mutex := s.mutex.unlock } thread []) :=
  ⟨h.shape_set .idle, h.mutex.release hstack rfl rfl, fun index => (h.entry index).keep hstack rfl⟩

/-- The stack under a call that is not nested. -/
theorem rest_eq_nil (h : Locks s) (hstack : s.threads[thread]? = some (frame :: rest))
    (hne : ∀ index, frame ≠ .unsubscribe index) (hne' : frame ≠ .invoke) : rest = [] := by
  cases h.shape_of hstack with
  | base => rfl
  | nested index => exact absurd rfl (hne index)
  | back => exact absurd rfl hne'

/-- `Subscribe` that has called back into itself spins on its own mutex. -/
theorem rest_eq_nil_of_free (h : Locks s) (hstack : s.threads[thread]? = some (.invoke :: rest))
    (hfree : s.mutex = {}) : rest = [] := by
  cases h.shape_of hstack with
  | base => rfl
  | back =>
      have howner := (h.mutex thread).2 ⟨_, hstack, rfl⟩
      rw [hfree] at howner
      cases howner

theorem work (h : Locks s) (hstack : s.threads[thread]? = some (frame :: rest))
    (hs : Worked c s thread rest frame s') : Locks s' := by
  cases hs with
  | subscribe hlock =>
      obtain rfl := h.rest_eq_nil hstack nofun nofun
      exact h.lock hlock hstack _
  | cancelled test | timeIsOver test =>
      obtain rfl := h.rest_eq_nil hstack nofun nofun
      cases test with
      | first | second =>
          exact h.keep hstack rfl (.base nofun) rfl (fun _ => rfl) rfl fun _ => rfl
  | timeLeft test =>
      obtain rfl := h.rest_eq_nil hstack nofun nofun
      cases test with
      | first => exact h.keep hstack rfl (.base nofun) rfl (ownerAt_concat _ _) rfl fun _ => rfl
      | second => exact h.keep hstack rfl (.base nofun) rfl (fun _ => rfl) rfl fun _ => rfl
  | notCancelled | late | linked | link | linkedBefore | cancel =>
      obtain rfl := h.rest_eq_nil hstack nofun nofun
      exact h.keep hstack rfl (.base nofun) rfl (fun _ => rfl) rfl fun _ => rfl
  | install =>
      obtain rfl := h.rest_eq_nil hstack nofun nofun
      obtain ⟨hthreads, hmutex, hsubscriptions⟩ := installTimer_frame c s
      refine h.keep hstack ?_ (show Shape [.link] from .base nofun) hmutex (fun _ => ?_) rfl
        fun _ => rfl
      · exact congrArg (List.set · thread [Frame.link]) hthreads
      · exact congrArg (fun l => ownerAt l _) hsubscriptions
  | back =>
      obtain rfl := h.rest_eq_nil hstack nofun nofun
      exact h.keep hstack rfl .back rfl (fun _ => rfl) rfl fun _ => rfl
  | leave =>
      obtain rfl := h.rest_eq_nil hstack nofun nofun
      exact h.unlock hstack
  | @unsubscribe index entry mutex hentry hlock =>
      obtain ⟨hfree, -⟩ := SpinLock.lock_eq_some hlock
      have howner :=
        ownerAt_set_of_eq { entry with callback := false, mutex := mutex.unlock } hentry
        (by rw [hfree]; rfl)
      cases h.shape_of hstack with
      | base => exact h.keep hstack rfl .idle rfl howner rfl fun _ => rfl
      | nested _ hcallback =>
          refine h.keep hstack rfl (.base fun heq => ?_) rfl howner rfl fun _ => rfl
          rw [heq] at hcallback
          cases hcallback
  | cancelAgain | finish =>
      obtain rfl := h.rest_eq_nil hstack nofun nofun
      exact h.keep hstack rfl .idle rfl (fun _ => rfl) rfl fun _ => rfl
  | notify =>
      obtain rfl := h.rest_eq_nil hstack nofun nofun
      split
      · exact h.keep hstack rfl (.base nofun) rfl (fun _ => rfl) rfl fun _ => rfl
      · exact h.keep hstack rfl .idle rfl (fun _ => rfl) rfl fun _ => rfl
  | invokeAgain hlock =>
      obtain ⟨hfree, rfl⟩ := SpinLock.lock_eq_some hlock
      obtain rfl := h.rest_eq_nil_of_free hstack hfree
      exact h.keep hstack rfl .idle hfree.symm (fun _ => rfl) rfl fun _ => rfl
  | invoke hlock =>
      obtain ⟨hfree, rfl⟩ := SpinLock.lock_eq_some hlock
      obtain rfl := h.rest_eq_nil_of_free hstack hfree
      exact h.keep hstack rfl (.base nofun) hfree.symm (fun _ => rfl) rfl fun _ => rfl
  | call hentry hlock =>
      obtain rfl := h.rest_eq_nil hstack nofun nofun
      exact h.enter hentry hlock hstack rfl rfl rfl
  | @pass _ entry mutex hentry hlock =>
      obtain rfl := h.rest_eq_nil hstack nofun nofun
      obtain ⟨hfree, -⟩ := SpinLock.lock_eq_some hlock
      have howner := ownerAt_set_of_eq { entry with mutex := mutex.unlock } hentry
        (by rw [hfree]; rfl)
      exact h.keep hstack rfl (.base nofun) rfl howner rfl fun _ => rfl
  | called hentry =>
      obtain rfl := h.rest_eq_nil hstack nofun nofun
      exact h.exit hentry hstack rfl rfl rfl

theorem push_idle (h : Locks s) (hstack : s.threads[thread]? = some [])
    (hinside : frame.inside = false) (hholds : ∀ index, holds index [frame] = false) :
    Locks (s.setStack thread [frame]) :=
  h.keep hstack rfl (.base fun heq => (nomatch heq ▸ hinside)) rfl (fun _ => rfl)
    (by rw [inside, List.any_cons, hinside]; rfl) hholds

theorem begin {call : Call} (h : Locks s) (hstack : s.threads[thread]? = some old)
    (hmay : mayCall old call = true) (hs : begin c s thread old call = some s') : Locks s' := by
  cases call with
  | subscribe callback =>
      cases old with
      | cons frame rest => cases hmay
      | nil =>
          rw [Expiration.begin] at hs
          split at hs
          · obtain rfl := Option.some.inj hs
            exact h.push_idle hstack rfl fun _ => rfl
          · exact Option.some.inj hs ▸ h
  | unsubscribe handle =>
      cases handle with
      | none => exact Option.some.inj hs ▸ h
      | some index =>
          rw [Expiration.begin] at hs
          split at hs
          · obtain rfl := Option.some.inj hs
            cases h.shape_of hstack with
            | idle => exact h.push_idle hstack rfl fun _ => rfl
            | base =>
                exact h.keep hstack rfl (.nested index hmay) rfl (fun _ => rfl) rfl fun _ => rfl
            | nested => cases hmay
            | back => cases hmay
          · cases hs
  | cancel =>
      cases old with
      | cons frame rest => cases hmay
      | nil =>
          rw [Expiration.begin] at hs
          split at hs
          · obtain rfl := Option.some.inj hs
            exact h.push_idle hstack rfl fun _ => rfl
          · cases hs

theorem step {a : Action} (h : Locks s) (hs : step c s a = some s') : Locks s' := by
  cases a with
  | call thread call =>
      rw [Expiration.step] at hs
      split at hs
      · cases hs
      · next stack hstack =>
        split at hs
        · next hmay => exact h.begin hstack hmay hs
        · cases hs
  | work thread =>
      rw [Expiration.step] at hs
      split at hs
      · next frame rest hstack => exact h.work hstack (worked_of_work hs)
      · cases hs
      · cases hs
  | fire thread =>
      rw [Expiration.step] at hs
      split at hs
      · next hstack _ =>
        split at hs
        · cases hs
        · obtain rfl := Option.some.inj hs
          exact h.keep hstack rfl (.base nofun) rfl (fun _ => rfl) rfl fun _ => rfl
      · cases hs
  | tick ticks =>
      obtain rfl := Option.some.inj hs
      exact ⟨h.shape, h.mutex, h.entry⟩

end Locks

/-! ### Asking twice -/

/-- The mutex the call on top of a stack asks for. -/
def State.wants (s : State) : Frame → Option SpinLock
  | .subscribe | .invoke => some s.mutex
  | .unsubscribe index | .walk index =>
      s.subscriptions[index]?.map fun entry => entry.mutex
  | _ => none

/-- A thread asks for a mutex that it holds. -/
def State.Reacquires (s : State) : Prop :=
  ∃ thread frame rest, s.threads[thread]? = some (frame :: rest) ∧
    ∃ lock ∈ s.wants frame, lock.Recursive thread

/-- `installSubscriptions` does not subscribe to a cancellation that is cancelled, and no callback
of the loop in `invokeCallbacks` unsubscribes its own subscription. -/
def apart (c : Config) (s : State) : Action → Bool
  | .work thread =>
      match s.threads[thread]? with
      | some (.link :: _) => !(c.cancellation && !s.cancellationSubscription && s.isCancelled)
      | _                 => true
  | .call thread (.unsubscribe (some index)) =>
      match s.threads[thread]? with
      | some stack => !holds index stack
      | none       => true
  | _ => true

def Frame.isUnsubscribe : Frame → Bool
  | unsubscribe _ => true
  | _             => false

/-- What a step can put in the place of the frame on top of a stack. -/
inductive Replaced (c : Config) (s : State) : Frame → List Frame → Prop where
  | gone {frame : Frame} : Replaced c s frame []
  | one {frame next : Frame} (h : next.isUnsubscribe = false) : Replaced c s frame [next]
  | back (h : (c.cancellation && !s.cancellationSubscription && s.isCancelled) = true) :
      Replaced c s .link [.invoke, .linked]

/-- No call is back in its own object. -/
def Clear (stack : List Frame) : Prop :=
  stack ≠ [.invoke, .linked] ∧ ∀ index, stack ≠ [.unsubscribe index, .calling index]

section Apart

variable {c : Config} {s s' : State} {thread : Nat}

/-- With `Clear` stacks nobody asks for a mutex again. -/
theorem not_reacquires (hlocks : Locks s) (h : ∀ stack ∈ s.threads, Clear stack) :
    ¬ s.Reacquires := by
  rintro ⟨thread, frame, rest, hstack, lock, hlock, hrecursive⟩
  have hclear := h _ (List.mem_of_getElem? hstack)
  -- a mutex that is asked for again is held by the stack that asks
  have hinside : s.wants frame = some s.mutex → inside (frame :: rest) = true := by
    intro hwants
    obtain rfl : s.mutex = lock := Option.some.inj (hwants.symm.trans hlock)
    obtain ⟨stack, hstack', hholds⟩ := (hlocks.mutex thread).1 hrecursive
    exact Option.some.inj (hstack.symm.trans hstack') ▸ hholds
  have hcalling : ∀ index, s.wants frame = s.subscriptions[index]?.map (fun entry => entry.mutex) →
      holds index (frame :: rest) = true := by
    intro index hwants
    obtain ⟨entry, hentry, rfl⟩ := Option.map_eq_some_iff.1 (hwants.symm.trans hlock)
    obtain ⟨stack, hstack', hholds⟩ :=
      (hlocks.entry index thread).1 ((ownerAt_of_entry hentry).trans hrecursive)
    exact Option.some.inj (hstack.symm.trans hstack') ▸ hholds
  cases hlocks.shape_of hstack with
  | base =>
      cases frame with
      | subscribe | invoke => cases hinside rfl
      | unsubscribe index | walk index => cases hcalling index rfl
      | _ => cases hlock
  | nested index hcallback =>
      have hholds := hcalling index rfl
      rename_i callback
      cases callback with
      | calling other =>
          have hheld : holds index [.calling other] = true := hholds
          rw [holds_calling, decide_eq_true_iff] at hheld
          exact hclear.2 index (hheld ▸ rfl)
      | late => cases hholds
      | _ => cases hcallback
  | back => exact hclear.1 rfl

end Apart

end MyEngine.Utils.Expiration
