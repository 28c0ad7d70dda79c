import MyEngine.Async.TimerLocks
import MyEngine.Support.WaitGraph

/-!
# Async — deadlocks of the TimerManager

`cancelInvokeAfter` and `dispose` take `m_mutex` and then the lock of a timer; a callback runs under
the lock of its timer and may come to `m_mutex`.

* `Waits`: a thread waits for the one that has the lock it asks for; `Deadlock`: a cycle of them.
* `Stuck`: the pattern every deadlock has.
* `Apart`: the step does not complete the pattern; `deadlock_free_iff`: exactly the runs with such
  steps only are free of deadlocks.
-/

namespace MyEngine.Async.Timers

open MyEngine.Runs MyEngine.Threading Relation

/-- The next operation of the thread is to lock `m_mutex`. -/
inductive AsksManager (s : Win32TimerManager) (thread : ℕ) : Prop where
  | cancelInvokeAfter {timer : ℕ} {stack : List Frame}
      (hstack : s.threads[thread]? = some (.cancelInvokeAfter timer :: stack))
  | dispose {stack : List Frame} (hstack : s.threads[thread]? = some (.dispose :: stack))
  | body {timer : ℕ} {x : TimerState} {stack : List Frame}
      (hstack : s.threads[thread]? = some (.body timer :: stack))
      (hx : s.timers[timer]? = some x) (hplace : x.place = .create ∨ x.place = .destroy)

/-- The next operation of the thread is to lock the timer. -/
inductive AsksTimer (s : Win32TimerManager) (thread timer : ℕ) : Prop where
  | lockState {client : Option ℕ} {timers : List ℕ} {stack : List Frame}
      (hstack : s.threads[thread]? = some (.lockState client timer timers :: stack))
  | body {x : TimerState} {stack : List Frame}
      (hstack : s.threads[thread]? = some (.body timer :: stack))
      (hx : s.timers[timer]? = some x) (hplace : x.place = .lockState)

/-- One thread asks for a lock that the other has. -/
def Waits (s : Win32TimerManager) (thread other : ℕ) : Prop :=
  AsksManager s thread ∧ s.mutex = some other ∨
    ∃ timer, AsksTimer s thread timer ∧ Has s timer fun x => x.mutex = some other

/-- Threads wait for each other in a cycle, or one for itself. -/
def Deadlock (s : Win32TimerManager) : Prop := ∃ thread, TransGen (Waits s) thread thread

/-- A thread with `m_mutex` asks for a timer whose owner it is itself, or one that asks for
`m_mutex`. -/
def Stuck (s : Win32TimerManager) : Prop :=
  ∃ holder client timer timers stack owner,
    s.threads[holder]? = some (.lockState client timer timers :: stack) ∧
      Has s timer (fun x => x.mutex = some owner) ∧ (owner = holder ∨ AsksManager s owner)

section Waits

variable {s s' : Win32TimerManager} {a : Action} {thread other timer : ℕ} {x x' : TimerState}

/-- Who waits cannot go on. -/
theorem blocked_of_waits (h : Waits s thread other) : step s (.work thread) = none := by
  rcases h with ⟨hasks, hmutex⟩ | ⟨timer, hasks, x, hx, hmutex⟩
  · cases hasks with
    | cancelInvokeAfter hstack | dispose hstack =>
        simp [step, hstack, Win32TimerManager.work, hmutex]
    | body hstack hx hplace =>
        rcases hplace with hplace | hplace <;>
          simp [step, hstack, Win32TimerManager.work, hx, Win32TimerManager.workBody, hplace,
            hmutex]
  · cases hasks with
    | lockState hstack => simp [step, hstack, Win32TimerManager.work, hx, hmutex]
    | body hstack hx' hplace =>
        obtain rfl := Option.some.inj (hx.symm.trans hx')
        simp [step, hstack, Win32TimerManager.work, hx, Win32TimerManager.workBody, hplace,
          TimerState.next, hmutex]

theorem not_inside_of_asks (h : AsksManager s thread) {stack : List Frame}
    (hstack : s.threads[thread]? = some stack) : inside stack = false := by
  cases h with
  | cancelInvokeAfter h | dispose h | body h =>
      obtain rfl := Option.some.inj (hstack.symm.trans h)
      rfl

/-- `m_mutex` is taken before the timers, by whom it is asked for. -/
theorem Locks.hub (hi : Inv s) (hs : Locks s) :
    Hub (Waits s) (AsksManager s) fun thread => s.mutex = some thread where
  unique hi hj := Option.some.inj (hi.symm.trans hj)
  apart hasks hholds := by
    obtain ⟨stack, hstack, hinside⟩ := (hs.mutex _).1 hholds
    cases hinside.symm.trans (not_inside_of_asks hasks hstack)
  asks hasks hholds := .inl ⟨hasks, hholds⟩
  edge hwaits := by
    rcases hwaits with hasks | ⟨timer, hasks, x, hx, hmutex⟩
    · exact .inl hasks
    · refine .inr ?_
      cases hasks with
      | lockState hstack => exact (hs.mutex _).2 ⟨_, hstack, rfl⟩
      | body hstack hx' hplace =>
          -- Nobody but the coroutine itself keeps the lock.
          obtain rfl := Option.some.inj (hx.symm.trans hx')
          have hcallback := (hi.sane timer x hx).2.1 (by simp [hmutex])
          cases hcallback.symm.trans hplace

theorem deadlock_iff (hi : Inv s) (hs : Locks s) : Deadlock s ↔ Stuck s := by
  refine (hs.hub hi).cycle_iff.trans ?_
  constructor
  · rintro ⟨holder, owner, hholds, hwaits, hback⟩
    rcases hwaits with ⟨hasks, -⟩ | ⟨timer, hasks, hx⟩
    · exact absurd hholds ((hs.hub hi).apart hasks)
    · cases hasks with
      | lockState hstack => exact ⟨holder, _, timer, _, _, owner, hstack, hx, hback⟩
      | body hstack =>
          obtain ⟨stack, hstack', hinside⟩ := (hs.mutex _).1 hholds
          obtain rfl := Option.some.inj (hstack.symm.trans hstack')
          cases hinside
  · rintro ⟨holder, client, timer, timers, stack, owner, hstack, hx, hback⟩
    exact ⟨holder, owner, (hs.mutex _).2 ⟨_, hstack, rfl⟩,
      .inr ⟨timer, .lockState hstack, hx⟩, hback⟩

end Waits

/-! ### The steps that lead there -/

/-- The next operation of the coroutine takes it to its destructor. -/
def TimerState.leadsToDestroy (x : TimerState) : Bool :=
  match x.place with
  | .resumed             => x.kind = .invokeAfter && x.promise = some .cancelled
  | .lockState           => x.cancelled
  | .callback | .calling => true
  | _                    => false

/-- The step takes the thread to where it asks for `m_mutex`. -/
inductive ComesToManager (s : Win32TimerManager) : Action → ℕ → Prop where
  | invokeAfter {thread : ℕ} (kind : Kind) : ComesToManager s (.invokeAfter thread kind) thread
  | cancelInvokeAfter {thread : ℕ} (timer : ℕ) :
      ComesToManager s (.cancelInvokeAfter thread timer) thread
  | dispose {thread : ℕ} (hdisposed : s.isDisposed = false) :
      ComesToManager s (.dispose thread) thread
  | work {thread timer : ℕ} {x : TimerState} {stack : List Frame}
      (hstack : s.threads[thread]? = some (.body timer :: stack))
      (hx : s.timers[timer]? = some x) (h : x.leadsToDestroy = true) :
      ComesToManager s (.work thread) thread

/-- Whoever comes to a timer with `m_mutex` finds no owner that is itself or asks for `m_mutex`,
and nobody comes to `m_mutex` with a timer that is asked for under it, unless it gives the timer
back. -/
structure Apart (s : Win32TimerManager) (a : Action) : Prop where
  lock : ∀ (thread : ℕ) client timer timers stack owner, a = .work thread →
    s.threads[thread]? = some (.loop client (timer :: timers) :: stack) →
      (Has s timer fun x => x.mutex = some owner) → owner ≠ thread ∧ ¬ AsksManager s owner
  manager : ∀ (thread holder : ℕ) client timer timers stack, (step s a).isSome = true →
    ComesToManager s a thread →
      s.threads[holder]? = some (.lockState client timer timers :: stack) →
        (Has s timer fun x => x.mutex = some thread) →
          a = .work thread ∧ ∃ below, s.threads[thread]? = some (.body timer :: below)

section Steps

variable {s s' : Win32TimerManager} {a : Action} {thread other timer : ℕ} {x x' : TimerState}

/-- What a coroutine does, of all that a thread can do. -/
theorem stepped_body (h : Stepped s (.work thread) s') {stack : List Frame}
    (hstack : s.threads[thread]? = some (.body timer :: stack)) (hx : s.timers[timer]? = some x) :
    x.place = .create ∨ x.place = .destroy ∨ ∃ x' leaves, Next x thread x' leaves ∧
      s' = (s.setTimer timer x').setStack thread
        (if leaves then stack else .body timer :: stack) := by
  cases h with
  | create hstack' hx' hplace =>
      cases hstack.symm.trans hstack'
      cases hx.symm.trans hx'
      exact .inl hplace
  | remove hstack' hx' hplace =>
      cases hstack.symm.trans hstack'
      cases hx.symm.trans hx'
      exact .inr (.inl hplace)
  | next hstack' hx' hnext =>
      cases hstack.symm.trans hstack'
      cases hx.symm.trans hx'
      exact .inr (.inr ⟨_, _, next_of_next hnext, rfl⟩)
  | lockCancel hstack' | found hstack' | notFound hstack' | lockDispose hstack' | unlock hstack'
  | loop hstack' | lockState hstack' | resolve hstack' | deleteTimer hstack' =>
      cases hstack.symm.trans hstack'

/-- The coroutine comes to its destructor, on the same thread and without its lock. -/
theorem next_of_leadsToDestroy (h : x.leadsToDestroy = true) {leaves : Bool}
    (hnext : Next x thread x' leaves) : leaves = false ∧ x'.place = .destroy := by
  unfold TimerState.leadsToDestroy at h
  cases hnext with
  | suspend hplace | goOn hplace | call hplace | destroy hplace => simp [hplace] at h
  | leave | called => exact ⟨rfl, rfl⟩
  | resume hplace =>
      rw [hplace] at h
      obtain ⟨hkind, hpromise⟩ := Bool.and_eq_true_iff.1 h
      have hdestroy : x.resume.place = .destroy := by
        unfold TimerState.resume
        rw [of_decide_eq_true hkind]
        simp only [TimerState.releaseRef, if_pos (of_decide_eq_true hpromise)]
      exact ⟨by simp [hdestroy], hdestroy⟩
  | enter hplace =>
      rw [hplace] at h
      rw [TimerState.enter, if_pos h]
      exact ⟨rfl, rfl⟩

/-- Who comes to its destructor has been on the way there. -/
theorem leadsToDestroy_of_next {leaves : Bool} (hnext : Next x thread x' leaves)
    (hplace : x'.place = .create ∨ x'.place = .destroy) : x.leadsToDestroy = true := by
  unfold TimerState.leadsToDestroy
  cases hnext with
  | suspend | goOn | call | destroy => simp at hplace
  | leave h | called h => rw [h]
  | resume h =>
      rw [h]
      unfold TimerState.resume at hplace
      split at hplace
      next hkind =>
        by_cases hpromise : x.promise = some .cancelled
        · simp [hkind, hpromise]
        · simp [hpromise] at hplace
      next => simp at hplace
      next => simp at hplace
  | enter h =>
      rw [h]
      unfold TimerState.enter at hplace
      split at hplace
      next hcancelled => exact hcancelled
      next => simp at hplace

/-! ### The pattern comes with the step -/

theorem AsksManager.of_ne (h : AsksManager s thread)
    (hthreads : s'.threads[thread]? = s.threads[thread]?) (htimers : s'.timers = s.timers) :
    AsksManager s' thread := by
  cases h with
  | cancelInvokeAfter hstack => exact .cancelInvokeAfter (hthreads.trans hstack)
  | dispose hstack => exact .dispose (hthreads.trans hstack)
  | body hstack hx hplace => exact .body (hthreads.trans hstack) (htimers ▸ hx) hplace

theorem stuck_of_lock {client : Option ℕ} {timers : List ℕ} {stack : List Frame} {owner : ℕ}
    (hstack : s.threads[thread]? = some (.loop client (timer :: timers) :: stack))
    (hx : Has s timer fun x => x.mutex = some owner)
    (h : owner = thread ∨ AsksManager s owner) :
    Stuck (s.setStack thread (.lockState client timer timers :: stack)) := by
  refine ⟨thread, client, timer, timers, stack, owner, getElem?_replaced hstack _, hx, ?_⟩
  by_cases heq : owner = thread
  · exact .inl heq
  · exact .inr ((h.resolve_left heq).of_ne (List.getElem?_set_ne (Ne.symm heq)) rfl)

/-- The thread of a callback is not the one that asks for a timer. -/
theorem ne_of_inside {holder : ℕ} {client : Option ℕ} {timers : List ℕ} {stack old : List Frame}
    (hholder : s.threads[holder]? = some (.lockState client timer timers :: stack))
    (hstack : s.threads[thread]? = some old) (hinside : inside old = false) : thread ≠ holder := by
  rintro rfl
  obtain rfl := Option.some.inj (hholder.symm.trans hstack)
  cases hinside

theorem stuck_of_manager {holder : ℕ} {client : Option ℕ} {timers : List ℕ} {stack : List Frame}
    (h : Stepped s a s') (hcomes : ComesToManager s a thread)
    (hholder : s.threads[holder]? = some (.lockState client timer timers :: stack))
    (hx : Has s timer fun x => x.mutex = some thread)
    (hnot : ¬ (a = .work thread ∧ ∃ below, s.threads[thread]? = some (.body timer :: below))) :
    Stuck s' := by
  cases hcomes with
  | invokeAfter kind =>
      cases h with
      | invokeAfter kind hstack hcall =>
          have hne := ne_of_inside hholder hstack (inside_of_canCall hcall)
          obtain ⟨x, hx, hmutex⟩ := hx
          exact ⟨holder, client, timer, timers, stack, thread,
            (List.getElem?_set_ne hne).trans hholder, ⟨x, getElem?_concat_of_some hx _, hmutex⟩,
            .inr (.body (getElem?_replaced hstack _) List.getElem?_concat_length (.inl rfl))⟩
  | cancelInvokeAfter =>
      cases h with
      | cancelInvokeAfter hstack hcall =>
          have hne := ne_of_inside hholder hstack (inside_of_canCall hcall)
          exact ⟨holder, client, timer, timers, stack, thread,
            (List.getElem?_set_ne hne).trans hholder, hx,
            .inr (.cancelInvokeAfter (getElem?_replaced hstack _))⟩
  | dispose hdisposed =>
      cases h with
      | disposeAgain hagain => cases hdisposed.symm.trans hagain
      | dispose hstack hcall =>
          have hne := ne_of_inside hholder hstack (inside_of_canCall hcall)
          exact ⟨holder, client, timer, timers, stack, thread,
            (List.getElem?_set_ne hne).trans hholder, hx,
            .inr (.dispose (getElem?_replaced hstack _))⟩
  | @work _ other y below hstack hy hleads =>
      have hne := ne_of_inside hholder hstack rfl
      have htimer : other ≠ timer := by
        rintro rfl
        exact hnot ⟨rfl, below, hstack⟩
      rcases stepped_body h hstack hy with hplace | hplace | ⟨y', leaves, hnext, rfl⟩
      · simp [TimerState.leadsToDestroy, hplace] at hleads
      · simp [TimerState.leadsToDestroy, hplace] at hleads
      · obtain ⟨rfl, hdestroy⟩ := next_of_leadsToDestroy hleads hnext
        obtain ⟨x, hx, hmutex⟩ := hx
        exact ⟨holder, client, timer, timers, stack, thread,
          (List.getElem?_set_ne hne).trans hholder,
          ⟨x, (List.getElem?_set_ne htimer).trans hx, hmutex⟩,
          .inr (.body (getElem?_replaced hstack _) (getElem?_replaced hy _) (.inr hdestroy))⟩

theorem apart_of_not_stuck (h : ∀ s', step s a = some s' → ¬ Stuck s') : Apart s a where
  lock thread client timer timers stack owner ha hstack hx := by
    subst ha
    have hstep : step s (.work thread) =
        some (s.setStack thread (.lockState client timer timers :: stack)) := by
      simp [step, hstack, Win32TimerManager.work]
    have hnot := h _ hstep
    exact ⟨fun howner => hnot (stuck_of_lock hstack hx (.inl howner)),
      fun hasks => hnot (stuck_of_lock hstack hx (.inr hasks))⟩
  manager thread holder client timer timers stack hsome hcomes hholder hx := by
    by_contra hnot
    obtain ⟨s', hstep⟩ := Option.isSome_iff_exists.1 hsome
    exact h s' hstep (stuck_of_manager (stepped_of_step hstep) hcomes hholder hx hnot)

/-! ### No other step completes the pattern -/

/-- A thread of the manager comes to a timer by its loop. -/
theorem lockState_of_stepped (hs : Locks s) (h : Stepped s a s') {holder : ℕ}
    {client : Option ℕ} {timers : List ℕ} {stack : List Frame}
    (hholder : s'.threads[holder]? = some (.lockState client timer timers :: stack)) :
    s.threads[holder]? = some (.lockState client timer timers :: stack) ∨
      a = .work holder ∧ s.threads[holder]? = some (.loop client (timer :: timers) :: stack) ∧
        s'.timers = s.timers := by
  -- The thread that moves has another call on top, or comes back into a callback.
  have hset : ∀ {thread : ℕ} {old new : List Frame}, s.threads[thread]? = some old →
      (s.threads.set thread new)[holder]? = some (.lockState client timer timers :: stack) →
        inside new = false ∨ new.head? ≠ some (.lockState client timer timers) →
          s.threads[holder]? = some (.lockState client timer timers :: stack) := by
    intro thread old new hold hnew hother
    rcases getElem?_set_cases hnew with ⟨-, rfl⟩ | ⟨-, hsame⟩
    · rcases hother with hother | hother
      · cases hother
      · exact absurd rfl hother
    · exact hsame
  have hunlock : ∀ {thread : ℕ} {frame : Frame} {below : List Frame} (client' : Option ℕ),
      s.threads[thread]? = some (frame :: below) →
        (s.unlock thread client' below).threads[holder]? =
          some (.lockState client timer timers :: stack) →
          s.threads[holder]? = some (.lockState client timer timers :: stack) := by
    intro thread frame below client' hold hnew
    refine hset hold ?_ (.inl (hs.inside_tail hold))
    rcases unlock_cases s thread client' below with ⟨_, _, -, -, heq⟩ | heq
    · rw [heq] at hnew
      exact hnew
    · rw [heq] at hnew
      exact hnew
  cases h with
  | disposeAgain | fire | osResolve | osReturn => exact .inl hholder
  | invokeAfter _ hstack | cancelInvokeAfter hstack | dispose hstack | run hstack
  | runSwitched hstack | create hstack | remove hstack =>
      exact .inl (hset hstack hholder (.inl rfl))
  | @next _ _ _ _ leaves _ hstack =>
      refine .inl (hset hstack hholder (.inl ?_))
      cases leaves with
      | true => exact hs.inside_tail hstack
      | false => rfl
  | lockCancel hstack | found hstack | lockDispose hstack | lockState hstack | resolve hstack
  | deleteTimer hstack => exact .inl (hset hstack hholder (.inr (by simp)))
  | notFound hstack | unlock hstack => exact .inl (hunlock _ hstack hholder)
  | loop hstack =>
      rcases getElem?_set_cases hholder with ⟨rfl, heq⟩ | ⟨-, hsame⟩
      · cases heq
        exact .inr ⟨rfl, hstack, rfl⟩
      · exact .inl hsame

theorem mutex_of_next {leaves : Bool} {owner : ℕ} (hnext : Next x thread x' leaves)
    (hmutex : x'.mutex = some owner) :
    x.mutex = some owner ∨ owner = thread ∧ x'.place = .callback ∧ leaves = false := by
  cases hnext with
  | suspend | goOn | call | called | destroy => exact .inl hmutex
  | leave => cases hmutex
  | resume =>
      unfold TimerState.resume at hmutex
      split at hmutex <;> exact .inl hmutex
  | enter =>
      unfold TimerState.enter at hmutex ⊢
      split at hmutex
      next => exact .inl hmutex
      next hcancelled =>
        rw [if_neg hcancelled]
        exact .inr ⟨(Option.some.inj hmutex).symm, rfl, rfl⟩

/-- A lock that is taken is kept by a callback on top of its thread. -/
theorem mutex_of_stepped (h : Stepped s a s') {owner : ℕ} (hx' : s'.timers[timer]? = some x')
    (hmutex : x'.mutex = some owner) :
    (Has s timer fun x => x.mutex = some owner) ∨
      x'.place = .callback ∧ ∃ below, s'.threads[owner]? = some (.body timer :: below) := by
  have hset : ∀ {other : ℕ} {y y' : TimerState}, s.timers[other]? = some y →
      (s.timers.set other y')[timer]? = some x' → y'.mutex = y.mutex →
        Has s timer fun x => x.mutex = some owner := by
    intro other y y' hy hnew hsame
    rcases getElem?_set_cases hnew with ⟨rfl, rfl⟩ | ⟨-, hx⟩
    · exact ⟨y, hy, hsame.symm.trans hmutex⟩
    · exact ⟨x', hx, hmutex⟩
  have hunlock : ∀ (thread : ℕ) (client : Option ℕ) (below : List Frame),
      (s.unlock thread client below).timers[timer]? = some x' →
        Has s timer fun x => x.mutex = some owner := by
    intro thread client below hnew
    rcases unlock_cases s thread client below with ⟨other, y, -, hy, heq⟩ | heq
    · rw [heq] at hnew
      exact hset hy hnew rfl
    · rw [heq] at hnew
      exact ⟨x', hnew, hmutex⟩
  have hresolve : ∀ (y : TimerState) (result : TimerOperationResult),
      (y.resolve result).mutex = y.mutex := by
    intro y result
    unfold TimerState.resolve
    split <;> rfl
  cases h with
  | invokeAfter kind =>
      rcases getElem?_concat_cases hx' with hx | ⟨-, rfl⟩
      · exact .inl ⟨x', hx, hmutex⟩
      · cases hmutex
  | cancelInvokeAfter | disposeAgain | dispose | lockCancel | found | lockDispose | loop =>
      exact .inl ⟨x', hx', hmutex⟩
  | run _ hy | runSwitched _ hy | remove _ hy | lockState _ hy | deleteTimer _ hy | fire hy
  | osReturn hy => exact .inl (hset hy hx' rfl)
  | create hstack hy =>
      refine .inl (hset hy hx' ?_)
      unfold TimerState.construct
      split <;> rfl
  | next hstack hy hnext =>
      rcases getElem?_set_cases hx' with ⟨rfl, rfl⟩ | ⟨-, hx⟩
      · rcases mutex_of_next (next_of_next hnext) hmutex with hmutex | ⟨rfl, hplace, rfl⟩
        · exact .inl ⟨_, hy, hmutex⟩
        · exact .inr ⟨hplace, _, getElem?_replaced hstack _⟩
      · exact .inl ⟨x', hx, hmutex⟩
  | notFound | unlock => exact .inl (hunlock _ _ _ hx')
  | resolve hstack hy => exact .inl (hset hy hx' (hresolve _ _))
  | osResolve hy => exact .inl (hset hy hx' (hresolve _ .success))

/-- In its constructor or its destructor, before the section. -/
def AtManager (x : TimerState) : Prop := x.place = .create ∨ x.place = .destroy

theorem atManager_of_resolve (result : TimerOperationResult)
    (h : AtManager (x.resolve result)) : AtManager x := by
  revert h
  refine resolve_rec x result ?_ ?_ ?_
  · intro _ h
    exact h
  · intro _ _ h
    simp [AtManager] at h
  · intro _ _ h
    exact h

/-- A thread that stays where it is has asked before. -/
theorem AsksManager.of_stays (h : AsksManager s' thread)
    (hthreads : s'.threads[thread]? = s.threads[thread]?)
    (htimers : ∀ timer y below, s.threads[thread]? = some (.body timer :: below) →
      s'.timers[timer]? = some y → AtManager y → Has s timer AtManager) : AsksManager s thread := by
  cases h with
  | cancelInvokeAfter hstack => exact .cancelInvokeAfter (hthreads.symm.trans hstack)
  | dispose hstack => exact .dispose (hthreads.symm.trans hstack)
  | body hstack hy hplace =>
      have hbefore := hthreads.symm.trans hstack
      obtain ⟨x, hx, hplace⟩ := htimers _ _ _ hbefore hy hplace
      exact .body hbefore hx hplace

/-- Behind a call there is a callback. -/
theorem Locks.not_asks_below (hs : Locks s) {frame : Frame} {below : List Frame}
    (hstack : s.threads[thread]? = some (frame :: below)) (hkeeps : Keeps s s')
    (hstack' : s'.threads[thread]? = some below) : ¬ AsksManager s' thread := by
  have hmem := List.mem_of_getElem? hstack
  have hbody : ∀ top rest, below = top :: rest →
      ∃ timer, top = .body timer ∧ Has s' timer Calls := by
    rintro top rest rfl
    obtain ⟨timer, rfl, hcalls⟩ := hs.callers _ hmem top List.mem_cons_self
    exact ⟨timer, rfl, hkeeps timer ⟨_, hmem, List.mem_cons_self⟩ hcalls⟩
  intro hasks
  cases hasks with
  | cancelInvokeAfter h =>
      obtain ⟨timer, heq, -⟩ := hbody _ _ (Option.some.inj (hstack'.symm.trans h))
      cases heq
  | dispose h =>
      obtain ⟨timer, heq, -⟩ := hbody _ _ (Option.some.inj (hstack'.symm.trans h))
      cases heq
  | body h hy hplace =>
      obtain ⟨timer, heq, hcalls⟩ := hbody _ _ (Option.some.inj (hstack'.symm.trans h))
      injection heq with heq
      subst heq
      rcases hcalls.of_getElem? hy with hcalls | hcalls <;>
        rcases hplace with hplace | hplace <;> cases hcalls.symm.trans hplace

theorem asks_top (h : AsksManager s thread) {below : List Frame}
    (hstack : s.threads[thread]? = some (.body timer :: below)) (hx : s.timers[timer]? = some x) :
    AtManager x := by
  cases h with
  | cancelInvokeAfter h | dispose h => cases hstack.symm.trans h
  | body h hy hplace =>
      cases hstack.symm.trans h
      cases hx.symm.trans hy
      exact hplace

/-- The coroutine of another thread has moved. -/
theorem at_of_set (hx : s.timers[timer]? = some x) {owner : ℕ}
    (hat : ∀ below, s.threads[owner]? = some (.body timer :: below) → AtManager x' → AtManager x) :
    ∀ other y below, s.threads[owner]? = some (.body other :: below) →
      (s.timers.set timer x')[other]? = some y → AtManager y → Has s other AtManager := by
  intro other y below hbelow hy hplace
  rcases getElem?_set_cases hy with ⟨rfl, rfl⟩ | ⟨-, hy⟩
  · exact ⟨x, hx, hat below hbelow hplace⟩
  · exact ⟨y, hy, hplace⟩

/-- A thread and a timer have moved, and it is another thread that asks. -/
theorem AsksManager.of_set_ne (h : AsksManager s' other) (hne : other ≠ thread)
    {new : List Frame} (hthreads : s'.threads = s.threads.set thread new)
    (hx : s.timers[timer]? = some x) (htimers : s'.timers = s.timers.set timer x')
    (hat : ∀ below, s.threads[other]? = some (.body timer :: below) → AtManager x' → AtManager x) :
    AsksManager s other := by
  refine h.of_stays ?_ ?_
  · rw [hthreads, List.getElem?_set_ne hne.symm]
  · rw [htimers]
    exact at_of_set hx hat

theorem atManager_construct (isDisposed : Bool) : ¬ AtManager (x.construct isDisposed) := by
  unfold TimerState.construct
  split <;> simp [AtManager]

/-- A thread comes to `m_mutex` by its own step. -/
theorem asks_of_stepped (hi : Inv s) (hs : Locks s) (h : Stepped s a s') {owner : ℕ}
    (hasks : AsksManager s' owner) : AsksManager s owner ∨ ComesToManager s a owner := by
  -- A coroutine is on top of no other thread than the one that works on it.
  have honly : ∀ {thread timer : ℕ} {x x' : TimerState} {stack : List Frame},
      s.threads[thread]? = some (.body timer :: stack) → s.timers[timer]? = some x →
        owner ≠ thread → ∀ below, s.threads[owner]? = some (.body timer :: below) →
          AtManager x' → AtManager x := by
    intro thread timer x x' stack hstack hx hne below hbelow
    exact absurd (hs.only hx hstack hbelow List.mem_cons_self).1 hne
  have hidle : ∀ {timer : ℕ} {x x' : TimerState}, s.timers[timer]? = some x →
      x.place.active = false → ∀ below, s.threads[owner]? = some (.body timer :: below) →
        AtManager x' → AtManager x := by
    intro timer x x' hx hactive below hbelow
    exact absurd List.mem_cons_self (hs.not_mem hx hactive (List.mem_of_getElem? hbelow))
  have hsame : ∀ timer y below, s.threads[owner]? = some (.body timer :: below) →
      s.timers[timer]? = some y → AtManager y → Has s timer AtManager :=
    fun _ y _ _ hy hplace => ⟨y, hy, hplace⟩
  have hunlock : ∀ {thread : ℕ} {frame : Frame} {below : List Frame} (client : Option ℕ),
      s.threads[thread]? = some (frame :: below) →
        AsksManager (s.unlock thread client below) owner → AsksManager s owner := by
    intro thread frame below client hstack hasks
    rcases unlock_cases s thread client below with ⟨timer, x, -, hx, heq⟩ | heq
    · rw [heq] at hasks
      by_cases hne : owner = thread
      · subst hne
        refine absurd hasks (hs.not_asks_below hstack ?_ (getElem?_replaced hstack _))
        exact keeps_of_set hx rfl fun _ h => h
      · exact hasks.of_set_ne hne rfl hx rfl fun _ _ h => h
    · rw [heq] at hasks
      by_cases hne : owner = thread
      · subst hne
        refine absurd hasks (hs.not_asks_below hstack ?_ (getElem?_replaced hstack _))
        exact keeps_of_timers rfl
      · exact hasks.of_stays (List.getElem?_set_ne (Ne.symm hne)) hsame
  cases h with
  | disposeAgain => exact .inl hasks
  | @invokeAfter thread stack kind hstack =>
      by_cases hne : owner = thread
      · exact .inr (hne ▸ .invokeAfter kind)
      · refine .inl (hasks.of_stays (List.getElem?_set_ne (Ne.symm hne)) ?_)
        intro timer y below hbelow hy hplace
        rcases getElem?_concat_cases hy with hy | ⟨rfl, -⟩
        · exact ⟨y, hy, hplace⟩
        · have hlt : s.timers.length < s.timers.length := hi.knows_top hbelow
          exact absurd hlt (Nat.lt_irrefl _)
  | @cancelInvokeAfter thread timer =>
      by_cases hne : owner = thread
      · exact .inr (hne ▸ .cancelInvokeAfter timer)
      · exact .inl (hasks.of_stays (List.getElem?_set_ne (Ne.symm hne)) hsame)
  | @dispose thread _ _ _ hdisposed =>
      by_cases hne : owner = thread
      · exact .inr (hne ▸ .dispose hdisposed)
      · exact .inl (hasks.of_stays (List.getElem?_set_ne (Ne.symm hne)) hsame)
  | @run thread timer x hstack hx hplace | @runSwitched thread timer x hstack hx hplace =>
      by_cases hne : owner = thread
      · subst hne
        have hat := asks_top hasks (getElem?_replaced hstack _) (getElem?_replaced hx _)
        simp [AtManager] at hat
      · exact .inl (hasks.of_set_ne hne rfl hx rfl (hidle hx (by rw [hplace]; rfl)))
  | @create thread timer x stack hstack hx =>
      by_cases hne : owner = thread
      · subst hne
        have hat := asks_top hasks (getElem?_replaced hstack _) (getElem?_replaced hx _)
        exact absurd hat (atManager_construct _)
      · exact .inl (hasks.of_set_ne hne rfl hx rfl (honly hstack hx hne))
  | @remove thread timer x stack hstack hx =>
      by_cases hne : owner = thread
      · subst hne
        have hat := asks_top hasks (getElem?_replaced hstack _) (getElem?_replaced hx _)
        simp [AtManager] at hat
      · exact .inl (hasks.of_set_ne hne rfl hx rfl (honly hstack hx hne))
  | @next thread timer x x' leaves stack hstack hx hnext =>
      by_cases hne : owner = thread
      · subst hne
        cases leaves with
        | true =>
            refine absurd hasks (hs.not_asks_below hstack ?_ (getElem?_replaced hstack _))
            exact keeps_of_set hx rfl fun h => absurd h (hs.not_below hx hstack)
        | false =>
            have hat := asks_top hasks (getElem?_replaced hstack _) (getElem?_replaced hx _)
            exact .inr (.work hstack hx (leadsToDestroy_of_next (next_of_next hnext) hat))
      · exact .inl (hasks.of_set_ne hne rfl hx rfl (honly hstack hx hne))
  | @lockCancel thread _ _ hstack | @found thread _ _ hstack | @lockDispose thread _ hstack
  | @loop thread _ _ _ _ hstack =>
      by_cases hne : owner = thread
      · subst hne
        cases not_inside_of_asks hasks (getElem?_replaced hstack _)
      · exact .inl (hasks.of_stays (List.getElem?_set_ne (Ne.symm hne)) hsame)
  | notFound hstack | unlock hstack => exact .inl (hunlock _ hstack hasks)
  | @lockState thread _ _ _ _ _ hstack hx | @deleteTimer thread _ _ _ _ _ hstack hx =>
      by_cases hne : owner = thread
      · subst hne
        cases not_inside_of_asks hasks (getElem?_replaced hstack _)
      · exact .inl (hasks.of_set_ne hne rfl hx rfl fun _ _ h => h)
  | @resolve thread _ _ _ _ _ hstack hx =>
      by_cases hne : owner = thread
      · subst hne
        cases not_inside_of_asks hasks (getElem?_replaced hstack _)
      · exact .inl (hasks.of_set_ne hne rfl hx rfl fun _ _ h => atManager_of_resolve _ h)
  | fire hx | osReturn hx => exact .inl (hasks.of_stays rfl (at_of_set hx fun _ _ h => h))
  | osResolve hx =>
      exact .inl (hasks.of_stays rfl
        (at_of_set hx fun _ _ h => atManager_of_resolve .success h))

/-- The lock of a callback is gone with it. -/
theorem not_mutex_of_work (hi : Inv s) (h : Stepped s (.work thread) s') {below : List Frame}
    (hstack : s.threads[thread]? = some (.body timer :: below))
    (hx : Has s timer fun x => x.mutex = some thread)
    (hx' : Has s' timer fun x => x.mutex = some thread) : False := by
  obtain ⟨x, hx, hmutex⟩ := hx
  have hcallback := (hi.sane timer x hx).2.1 (by simp [hmutex])
  rcases stepped_body h hstack hx with hplace | hplace | ⟨y, leaves, hnext, rfl⟩
  · cases hcallback.symm.trans hplace
  · cases hcallback.symm.trans hplace
  · have hy := hx'.of_getElem? (getElem?_replaced hx y)
    cases hnext with
    | suspend hplace | goOn hplace | resume hplace | enter hplace | call hplace | called hplace
    | destroy hplace => cases hcallback.symm.trans hplace
    | leave => cases hy

theorem not_stuck_of_apart (hi : Inv s) (hs : Locks s) (hnot : ¬ Stuck s) (hapart : Apart s a)
    (hstep : step s a = some s') : ¬ Stuck s' := by
  have h := stepped_of_step hstep
  rintro ⟨holder, client, timer, timers, stack, owner, hholder, hx', hback⟩
  rcases lockState_of_stepped hs h hholder with hbefore | ⟨rfl, hloop, htimers⟩
  · obtain ⟨x', hx', hmutex⟩ := hx'
    rcases mutex_of_stepped h hx' hmutex with hx | ⟨hcallback, below, htop⟩
    · -- The owner has come to `m_mutex`, with the timer.
      have hfree : ¬ (owner = holder ∨ AsksManager s owner) := fun hback =>
        hnot ⟨holder, client, timer, timers, stack, owner, hbefore, hx, hback⟩
      have hasks := hback.resolve_left fun heq => hfree (.inl heq)
      rcases asks_of_stepped hi hs h hasks with hasks | hcomes
      · exact hfree (.inr hasks)
      · have hsome : (step s a).isSome = true := by rw [hstep]; rfl
        obtain ⟨rfl, below, hbody⟩ := hapart.manager owner holder client timer timers stack hsome
          hcomes hbefore hx
        exact not_mutex_of_work hi h hbody hx ⟨x', hx', hmutex⟩
    · -- The owner has just come into its callback.
      rcases hback with rfl | hasks
      · cases hholder.symm.trans htop
      · rcases asks_top hasks htop hx' with hplace | hplace <;> cases hcallback.symm.trans hplace
  · have hx : Has s timer fun x => x.mutex = some owner := (has_iff_of_timers htimers timer).1 hx'
    obtain ⟨hne, hasks⟩ := hapart.lock holder client timer timers stack owner rfl hloop hx
    rcases asks_of_stepped hi hs h (hback.resolve_left hne) with hasks' | hcomes
    · exact hasks hasks'
    · cases hcomes
      exact hne rfl

end Steps

/-! ### Every run -/

/-- **Exactly the runs whose steps keep the two locks apart are free of deadlocks.** -/
theorem deadlock_free_iff (threads : ℕ) (run : List Action) :
    Allowed step (fun s a => ∀ s' ∈ step s a, ¬ Deadlock s') (start threads) run ↔
      Allowed step Apart (start threads) run := by
  have hstart : ¬ Stuck (start threads) := by
    rintro ⟨holder, client, timer, timers, stack, owner, hholder, -⟩
    cases List.eq_of_mem_replicate (List.mem_of_getElem? hholder)
  refine allowed_congr (P := fun s => Inv s ∧ Locks s ∧ ¬ Stuck s) ?_ ?_ run
    ⟨inv_start threads, locks_start threads, hstart⟩ (allowed_free run _)
  · rintro s a s' ⟨hi, hs, -⟩ - hfree hstep
    have h := stepped_of_step hstep
    exact ⟨hi.step h, hs.step hi h, fun hstuck =>
      hfree s' hstep ((deadlock_iff (hi.step h) (hs.step hi h)).2 hstuck)⟩
  · rintro s a ⟨hi, hs, hnot⟩ -
    constructor
    · intro hfree
      refine apart_of_not_stuck fun s' hstep hstuck => ?_
      have h := stepped_of_step hstep
      exact hfree s' hstep ((deadlock_iff (hi.step h) (hs.step hi h)).2 hstuck)
    · intro hapart s' hstep hdeadlock
      have h := stepped_of_step hstep
      exact not_stuck_of_apart hi hs hnot hapart hstep
        ((deadlock_iff (hi.step h) (hs.step hi h)).1 hdeadlock)

/-- A timer fires, and an executor runs its callback on the first thread. -/
def intoCallback : List Action :=
  [.invokeAfter 0 .invokeAfter, .work 0, .work 0, .fire 0, .osResolve 0, .osReturn 0, .run 0 0,
    .work 0, .work 0]

/-- The callback cancels the timer it is the callback of. -/
def cancelItself : List Action :=
  intoCallback ++ [.cancelInvokeAfter 0 0, .work 0, .work 0, .work 0]

/-- The callback makes another timer while a second thread cancels the first. -/
def cancelMeanwhile : List Action :=
  intoCallback ++ [.cancelInvokeAfter 1 0, .work 1, .work 1, .work 1, .invokeAfter 0 .invokeAfter]

/-- In its callback, under the lock of the first thread. -/
def calling : TimerState where
  kind := .invokeAfter
  place := .callback
  promise := some .success
  mutex := some 0
  hTimer := true
  os := .fired
  refs := 1
  takenBack := 1
  calls := 1
  returned := true

def waitsForItself : Win32TimerManager where
  mutex := some 0
  timerStateList := [0]
  timers := [calling]
  threads := [[.lockState (some 0) 0 [], .body 0]]

def waitForEachOther : Win32TimerManager where
  mutex := some 1
  timerStateList := [0]
  timers := [calling, .ofKind .invokeAfter]
  threads := [[.body 1, .body 0], [.lockState (some 0) 0 []]]

/-- One thread that locks a timer again, and two that wait for each other. -/
theorem timer_deadlocks :
    (Steps step Free (start 1) waitsForItself ∧ Waits waitsForItself 0 0) ∧
      Steps step Free (start 2) waitForEachOther ∧
        Waits waitForEachOther 0 1 ∧ Waits waitForEachOther 1 0 ∧ Deadlock waitForEachOther := by
  have hitself : exec step (start 1) cancelItself = some waitsForItself := rfl
  have hother : exec step (start 2) cancelMeanwhile = some waitForEachOther := rfl
  have hfirst : Waits waitForEachOther 0 1 := .inl ⟨.body rfl rfl (.inl rfl), rfl⟩
  have hsecond : Waits waitForEachOther 1 0 := .inr ⟨0, .lockState rfl, calling, rfl, rfl⟩
  refine ⟨⟨exec_steps (allowed_free cancelItself _) hitself, ?_⟩,
    exec_steps (allowed_free cancelMeanwhile _) hother, hfirst, hsecond, 0,
    .head hfirst (.single hsecond)⟩
  exact .inr ⟨0, .lockState rfl, calling, rfl, rfl⟩

end MyEngine.Async.Timers
