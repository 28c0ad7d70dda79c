import MyEngine.Async.TimerManagerRuns

/-!
# Async — the references to the core task of a timer

The promise of the timer, the task it is awaited with, and the argument of the timer of the system
each are a reference to one core task.

* `Counted`: who has a reference, and when the last one has been released.
* `Balanced`: what the system has been given comes back once, and the core task is destroyed then.
* `references_balanced_iff`: exactly the timers that are not deleted before they fire are balanced.
-/

namespace MyEngine.Async.Timers

open MyEngine.Runs

/-- The references of the promise and of the awaited task. -/
@[simp]
def Place.refs : Place → ℕ
  | .create | .finished => 0
  | .awaiting | .posted | .resumed => 2
  | .awaitTask | .lockState | .callback | .switching | .switched | .calling | .destroy |
    .deleteTimer => 1

/-- The reference the system has been given, unless its callback has taken it back. -/
@[simp]
def OsTimer.refs : OsTimer → ℕ
  | .never | .fired => 0
  | .armed | .firing | .resolved | .deleted => 1

/-- The system is to call back, or has. -/
def OsBusy (os : OsTimer) : Prop := os = .armed ∨ os = .firing ∨ os = .resolved

/-- A reference for each owner; the timer of the system has a handle until the destructor. -/
structure Counted (x : TimerState) : Prop where
  refs : x.refs = x.place.refs + x.os.refs
  destroyed : x.destroyed = if x.place = .finished ∧ x.os.refs = 0 then 1 else 0
  takenBack : x.takenBack = if x.os = .fired then 1 else 0
  handle : OsBusy x.os → x.hTimer = true ∧ x.place ≠ .finished
  create : x.place = .create → x.os = .never

section Moves

variable {x x' : TimerState}

/-- The coroutine goes on, with the same references. -/
theorem Counted.of_place (hx : Counted x) {place : Place} (hrefs : place.refs = x.place.refs)
    (hnot : place ≠ .create ∧ place ≠ .finished) (hold : x.place ≠ .finished) {promise mutex calls}
    {returned : Bool} :
    Counted { x with
      place := place
      promise := promise
      mutex := mutex
      calls := calls
      returned := returned } := by
  refine ⟨?_, ?_, hx.takenBack, fun h => ⟨(hx.handle h).1, hnot.2⟩, fun h => absurd h hnot.1⟩
  · exact hx.refs.trans (by rw [hrefs])
  · have hdestroyed := hx.destroyed
    simp only [hold, false_and, if_false] at hdestroyed
    simp [hnot.2, hdestroyed]

theorem Counted.resolve (hx : Counted x) (result : TimerOperationResult) :
    Counted (x.resolve result) := by
  refine resolve_rec x result ?_ ?_ ?_
  · intro _
    exact hx
  · intro _ hplace
    exact hx.of_place (by simp [hplace]) (by simp) (by simp [hplace])
  · intro _ _
    exact ⟨hx.refs, hx.destroyed, hx.takenBack, hx.handle, hx.create⟩

/-- The task is created behind `co_await`, with a reference. -/
theorem Counted.await (hx : Counted x) (hplace : x.place = .awaitTask) {place : Place}
    (hawait : place = .awaiting ∨ place = .resumed) {returned : Bool} :
    Counted { x.addRef with place := place, returned := returned } := by
  have hrefs := hx.refs
  have hdestroyed := hx.destroyed
  simp only [hplace, Place.refs] at hrefs hdestroyed
  rcases hawait with rfl | rfl
  all_goals
    refine ⟨?_, by simpa using hdestroyed, hx.takenBack, fun h => ⟨(hx.handle h).1, by simp⟩,
      fun h => by simp at h⟩
    simp only [TimerState.addRef, Place.refs, hrefs]
    omega

/-- The task that was awaited goes out of scope. -/
theorem Counted.resume (hx : Counted x) (hplace : x.place = .resumed) : Counted x.resume := by
  have hrefs := hx.refs
  have hdestroyed := hx.destroyed
  simp only [hplace, Place.refs] at hrefs hdestroyed
  have hnot : x.refs ≠ 1 := by omega
  have hafter : ∀ place : Place, place.refs = 1 → ∀ returned,
      Counted { x with place := place, returned := returned }.releaseRef := by
    intro place hone returned
    have hfinished : place ≠ .finished := by
      rintro rfl
      cases hone
    refine ⟨?_, ?_, hx.takenBack, fun h => ⟨(hx.handle h).1, hfinished⟩, ?_⟩
    · simp only [TimerState.releaseRef, hone, hrefs]
      omega
    · simpa [hnot, hfinished] using hdestroyed
    · rintro rfl
      cases hone
  unfold TimerState.resume
  split
  · refine hafter _ ?_ x.returned
    split <;> rfl
  · exact hafter .switching rfl true
  · exact hafter .switched rfl x.returned

/-- The promise is the last but for the system. -/
theorem Counted.destroy (hx : Counted x) (hplace : x.place = .deleteTimer)
    (hwaits : x.deleteWaits = false) : Counted x.destroy := by
  have hrefs := hx.refs
  have hdestroyed := hx.destroyed
  simp only [hplace, Place.refs] at hrefs hdestroyed
  have hhandle := hx.handle
  have hback := hx.takenBack
  unfold OsBusy at hhandle
  cases hos : x.os with
  | never | fired | deleted =>
      rw [hos] at hrefs hback
      refine ⟨?_, ?_, ?_, fun h => ?_, fun h => by cases h⟩
      all_goals simp_all [OsBusy]
  | armed =>
      have htrue := (hhandle (.inl hos)).1
      rw [hos] at hrefs hback
      refine ⟨?_, ?_, ?_, fun h => ?_, fun h => by cases h⟩
      all_goals simp_all [OsBusy]
  | firing | resolved =>
      -- The destructor waits for the callback of the system.
      have htrue := (hhandle (by simp [hos])).1
      simp [TimerState.deleteWaits, htrue, hos] at hwaits

/-- The system forgets the timer, and the reference with it. -/
theorem Counted.takeTimer (hx : Counted x) (hwaits : x.deleteWaits = false) :
    Counted x.takeTimer := by
  have hrefs := hx.refs
  have hdestroyed := hx.destroyed
  have hback := hx.takenBack
  have hhandle := hx.handle
  have hcreate := hx.create
  unfold OsBusy at hhandle
  cases hos : x.os with
  | never | fired | deleted =>
      refine ⟨?_, ?_, ?_, fun h => ?_, fun h => ?_⟩
      all_goals simp_all [OsBusy]
  | armed =>
      have htrue := (hhandle (.inl hos)).1
      refine ⟨?_, ?_, ?_, fun h => ?_, fun h => ?_⟩
      all_goals simp_all [OsBusy]
  | firing | resolved =>
      have htrue := (hhandle (by simp [hos])).1
      simp [TimerState.deleteWaits, htrue, hos] at hwaits

/-- The callback of the system goes on, with its reference. -/
theorem Counted.of_os (hx : Counted x) {os : OsTimer} (hold : OsBusy x.os)
    (hnew : os = .firing ∨ os = .resolved) : Counted { x with os := os } := by
  obtain ⟨hhandle, hfinished⟩ := hx.handle hold
  have hcreate : x.place ≠ .create := fun h => by
    rw [hx.create h] at hold
    simp [OsBusy] at hold
  have hrefs := hx.refs
  have hback := hx.takenBack
  have hdestroyed := hx.destroyed
  rcases hold with hold | hold | hold <;> rcases hnew with rfl | rfl
  all_goals
    rw [hold] at hrefs hback hdestroyed
    exact ⟨hrefs, hdestroyed, hback, fun _ => ⟨hhandle, hfinished⟩, fun h => absurd h hcreate⟩

/-- The callback of the system takes its reference back, and lets go of it. -/
theorem Counted.osReturn (hx : Counted x) (hos : x.os = .resolved) : Counted x.osReturn := by
  have hfinished := (hx.handle (.inr (.inr hos))).2
  have hcreate : x.place ≠ .create := fun h => by cases (hx.create h).symm.trans hos
  have hrefs := hx.refs
  have hdestroyed := hx.destroyed
  have hback := hx.takenBack
  simp only [hos, OsTimer.refs, hfinished, false_and, if_false] at hrefs hdestroyed hback
  -- The promise is alive, for the destructor would have waited.
  have hplace : x.place.refs ≠ 0 := by
    cases h : x.place <;> simp_all
  have hnot : x.refs ≠ 1 := by omega
  refine ⟨?_, ?_, ?_, fun h => ?_, fun h => absurd h hcreate⟩
  · simp [hrefs]
  · simp [hnot, hfinished, hdestroyed]
  · simp [hback]
  · simp [OsBusy] at h

theorem stable_counted : Stable Counted := by
  intro x x' hx hmove
  cases hmove with
  | construct isDisposed hplace =>
      have hos := hx.create hplace
      have hdestroyed := hx.destroyed
      have hback := hx.takenBack
      have hbusy : ¬ OsBusy x.os := by simp [hos, OsBusy]
      unfold TimerState.construct
      split
      · exact ⟨by simp [hos], by simp [hdestroyed, hplace], hback, fun h => absurd h hbusy,
          fun h => by simp at h⟩
      · exact ⟨by simp, by simp [hdestroyed, hplace], by simp [hback, hos],
          fun _ => ⟨rfl, by simp⟩, fun h => by simp at h⟩
  | run hplace | runSwitched hplace | remove hplace =>
      exact hx.of_place (by simp [hplace]) (by simp) (by simp [hplace])
  | next hnext =>
      cases next_of_next hnext with
      | suspend hplace => exact hx.await hplace (.inl rfl)
      | goOn hplace => exact hx.await hplace (.inr rfl)
      | resume hplace => exact hx.resume hplace
      | enter hplace =>
          unfold TimerState.enter
          split <;> exact hx.of_place (by simp [hplace]) (by simp) (by simp [hplace])
      | leave hplace | call hplace | called hplace =>
          exact hx.of_place (by simp [hplace]) (by simp) (by simp [hplace])
      | destroy hplace hwaits => exact hx.destroy hplace hwaits
  | setCancelled | cancelReturned =>
      exact ⟨hx.refs, hx.destroyed, hx.takenBack, hx.handle, hx.create⟩
  | resolve => exact hx.resolve _
  | takeTimer _ hwaits => exact hx.takeTimer hwaits
  | fire hos => exact hx.of_os (.inl hos) (.inl rfl)
  | osResolve hos =>
      have hresolved := hx.resolve .success
      refine hresolved.of_os ?_ (.inr rfl)
      rw [os_resolve, hos]
      exact .inr (.inl rfl)
  | osReturn hos => exact hx.osReturn hos

end Moves

/-! ### Every run -/

/-- What the system has been given is released once, the core task is destroyed once, and not before
the callback of the system has come to its end. -/
structure Balanced (x : TimerState) : Prop where
  released : x.takenBack ≤ 1
  destroyed : x.destroyed ≤ 1
  used : x.os = .firing ∨ x.os = .resolved → x.destroyed = 0
  finished : x.place = .finished → x.destroyed = 1 ∧ (x.os ≠ .never → x.takenBack = 1)

theorem Counted.balanced_iff {x : TimerState} (hx : Counted x) :
    Balanced x ↔ (x.place = .finished → x.os ≠ .deleted) := by
  constructor
  · intro h hfinished hdeleted
    have hback := (h.finished hfinished).2 (by simp [hdeleted])
    rw [hx.takenBack, hdeleted] at hback
    cases hback
  · intro h
    refine ⟨?_, ?_, fun hused => ?_, fun hfinished => ?_⟩
    · rw [hx.takenBack]
      split <;> simp
    · rw [hx.destroyed]
      split <;> simp
    · rw [hx.destroyed, if_neg fun hnot => (hx.handle (.inr hused)).2 hnot.1]
    · have hbusy : ¬ OsBusy x.os := fun hbusy => (hx.handle hbusy).2 hfinished
      have hdeleted := h hfinished
      rw [hx.destroyed, hx.takenBack]
      cases hos : x.os <;> simp_all [OsBusy]

/-- The step deletes no timer of the system that has not fired. -/
def Fires (s : Win32TimerManager) : Action → Prop
  | .work thread => ∀ stack, s.threads[thread]? = some stack → ∀ timer x,
      s.timers[timer]? = some x → x.os = .armed →
        (∀ rest, stack = .body timer :: rest → x.place ≠ .deleteTimer) ∧
          ∀ client timers rest, stack ≠ .deleteTimer client timer timers :: rest
  | _            => True

section Manager

variable {s s' : Win32TimerManager} {threads timer : ℕ} {x : TimerState}

theorem counted_of_steps (h : Steps step Free (start threads) s)
    (hx : s.timers[timer]? = some x) : Counted x :=
  timer_invariant (fun _ => ⟨rfl, rfl, rfl, fun h => (by simp [OsBusy] at h), fun _ => rfl⟩)
    stable_counted h hx

theorem balanced_iff (h : Steps step Free (start threads) s) :
    (∀ x ∈ s.timers, Balanced x) ↔ ∀ x ∈ s.timers, x.place = .finished → x.os ≠ .deleted := by
  refine forall_congr' fun x => forall_congr' fun hmem => ?_
  obtain ⟨timer, hx⟩ := List.mem_iff_getElem?.1 hmem
  exact (counted_of_steps h hx).balanced_iff

theorem deleteOs_os (x : TimerState) (harmed : x.os ≠ .armed) : x.deleteOs.os = x.os := by
  simp [harmed]

theorem undeleted_next {thread : ℕ} {x' : TimerState} {leaves : Bool} (hx : x.os ≠ .deleted)
    (harmed : x.place = .deleteTimer → x.os ≠ .armed)
    (hnext : x.next thread = some (x', leaves)) : x'.os ≠ .deleted := by
  cases next_of_next hnext with
  | suspend | goOn | leave | call | called => exact hx
  | resume =>
      unfold TimerState.resume
      split <;> exact hx
  | enter =>
      unfold TimerState.enter
      split <;> exact hx
  | destroy hplace => exact (deleteOs_os x (harmed hplace)).symm ▸ hx

theorem undeleted_of_step {a : Action} (hs : ∀ x ∈ s.timers, x.os ≠ .deleted) (ha : Fires s a)
    (h : Stepped s a s') : ∀ x ∈ s'.timers, x.os ≠ .deleted := by
  cases h with
  | invokeAfter kind => exact forall_of_concat hs (by simp)
  | cancelInvokeAfter | disposeAgain | dispose | lockCancel | found | lockDispose | loop => exact hs
  | notFound | unlock => exact forall_of_unlock hs (fun _ hx => hx) _ _ _
  | run _ hx | runSwitched _ hx | remove _ hx | lockState _ hx =>
      have hbefore := hs _ (List.mem_of_getElem? hx)
      exact forall_of_set hs hbefore
  | fire | osReturn => exact forall_of_set hs (by simp)
  | create hstack hx =>
      have hbefore := hs _ (List.mem_of_getElem? hx)
      refine forall_of_set hs ?_
      unfold TimerState.construct
      split
      · exact hbefore
      · simp
  | next hstack hx hnext =>
      have hbefore := hs _ (List.mem_of_getElem? hx)
      refine forall_of_set hs (undeleted_next hbefore (fun hplace harmed => ?_) hnext)
      exact (ha _ hstack _ _ hx harmed).1 _ rfl hplace
  | resolve hstack hx =>
      have hbefore := hs _ (List.mem_of_getElem? hx)
      exact forall_of_set hs ((os_resolve _ _).symm ▸ hbefore)
  | deleteTimer hstack hx =>
      have hbefore := hs _ (List.mem_of_getElem? hx)
      refine forall_of_set hs ((deleteOs_os _ fun harmed => ?_).symm ▸ hbefore)
      exact (ha _ hstack _ _ hx harmed).2 _ _ _ rfl
  | osResolve => exact forall_of_set hs (by simp [TimerState.osResolve])

theorem undeleted_of_steps (h : Steps step Fires (start threads) s) :
    ∀ x ∈ s.timers, x.os ≠ .deleted :=
  h.invariant (P := fun s => ∀ x ∈ s.timers, x.os ≠ .deleted)
    (fun hs ha h => undeleted_of_step hs ha (stepped_of_step h)) (fun x hmem => by cases hmem)

end Manager

/-- **Exactly the timers deleted before they fire keep what the system has been given.** -/
theorem references_balanced_iff (threads : ℕ) :
    (∀ s, Steps step Free (start threads) s →
      ((∀ x ∈ s.timers, Balanced x) ↔ ∀ x ∈ s.timers, x.place = .finished → x.os ≠ .deleted)) ∧
    ∀ s, Steps step Fires (start threads) s → ∀ x ∈ s.timers, Balanced x := by
  refine ⟨fun s h => balanced_iff h, fun s h => ?_⟩
  have hfree : Steps step Free (start threads) s := h.mono fun _ _ _ => trivial
  exact (balanced_iff hfree).2 fun x hmem _ => undeleted_of_steps h x hmem

/-- A client cancels before the system has called back. -/
def cancelBeforeFire : List Action :=
  [.invokeAfter 0 .invokeAfter, .work 0, .work 0, .cancelInvokeAfter 0 0, .work 0, .work 0, .work 0,
    .work 0, .work 0, .work 0, .work 0, .run 0 0, .work 0, .work 0, .work 0]

/-- The timer is destroyed, and its core task has a reference left. -/
def leaked : Win32TimerManager where
  timers :=
    [{  kind := .invokeAfter
        place := .finished
        promise := some .cancelled
        cancelled := true
        os := .deleted
        refs := 1
        returned := true
        cancelledByClient := true
        cancelReturned := true }]
  threads := [[]]

/-- `DeleteTimerQueueTimer` gives nothing back. -/
theorem cancelled_with_reference :
    Steps step Free (start 1) leaked ∧ ¬ ∀ x ∈ leaked.timers, Balanced x := by
  constructor
  · have hexec : exec step (start 1) cancelBeforeFire = some leaked := rfl
    exact exec_steps (allowed_free cancelBeforeFire _) hexec
  · intro h
    have hdestroyed := ((h _ List.mem_cons_self).finished rfl).1
    cases hdestroyed

end MyEngine.Async.Timers
