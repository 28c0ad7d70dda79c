import MyEngine.Async.TimerManagerRuns

/-!
# Async — the callbacks of the timers

How often the callback of a timer is started, and when not.

* `Started`, `Pending`, `Cancelled`, `Over`: what the place of the coroutine says about the
  callback, the timer of the system, the flags, and a client that has cancelled.
* `Sound`: the callback is started once, unless the client has cancelled it before.
* `callbacks_sound_iff`: which timers are not called, and which runs do without them.
-/

namespace MyEngine.Async.Timers

open MyEngine.Runs

/-- The callback has not been started. -/
@[simp]
def Place.early : Place → Bool
  | .create | .awaitTask | .awaiting | .posted | .resumed | .lockState | .switching | .switched =>
      true
  | .callback | .calling | .destroy | .deleteTimer | .finished => false

/-- The callback has returned, or is left out. -/
@[simp]
def Place.late : Place → Bool
  | .destroy | .deleteTimer | .finished => true
  | .create | .awaitTask | .awaiting | .posted | .resumed | .lockState | .switching | .switched |
    .callback | .calling => false

/-- How often the callback has been started.  Only `executeAfterAsync` switches to an executor, and
only `invokeAfter` takes the lock. -/
structure Started (x : TimerState) : Prop where
  invokeAfter : x.kind = .invokeAfter →
    x.place ≠ .switching ∧ x.place ≠ .switched ∧ x.place ≠ .calling
  executeAfter : x.kind ≠ .invokeAfter → x.place ≠ .lockState ∧ x.place ≠ .callback
  early : x.place.early = true → x.calls = 0
  running : x.place = .callback ∨ x.place = .calling → x.calls = 1
  once : x.calls ≤ 1

section Moves

variable {x x' : TimerState}

theorem Started.of_place (hx : Started x) (hkind : x'.kind = x.kind) (hplace : x'.place = x.place)
    (hcalls : x'.calls = x.calls) : Started x' := by
  obtain ⟨h₁, h₂, h₃, h₄, h₅⟩ := hx
  rw [← hkind, ← hplace] at h₁ h₂
  rw [← hplace, ← hcalls] at h₃ h₄
  exact ⟨h₁, h₂, h₃, h₄, hcalls ▸ h₅⟩

/-- A place of both kinds, where the callback has not been started. -/
theorem Started.of_early (hx : Started x) (hearly : x.place.early = true)
    (hcalls : x'.calls = x.calls)
    (hplace : x'.place = .awaitTask ∨ x'.place = .awaiting ∨ x'.place = .posted ∨
      x'.place = .resumed) : Started x' := by
  have hzero := hcalls.trans (hx.early hearly)
  rcases hplace with h | h | h | h <;>
    exact ⟨fun _ => (by simp [h]), fun _ => (by simp [h]), fun _ => hzero,
      fun h' => (by simp [h] at h'), by omega⟩

/-- The executor that `executeAfterAsync` switches to. -/
theorem Started.of_switch (hx : Started x) (hearly : x.place.early = true)
    (hkind : x'.kind = x.kind) (hcalls : x'.calls = x.calls) (hne : x.kind ≠ .invokeAfter)
    (hplace : x'.place = .switching ∨ x'.place = .switched) : Started x' := by
  have hzero := hcalls.trans (hx.early hearly)
  rw [← hkind] at hne
  rcases hplace with h | h <;>
    exact ⟨fun h' => absurd h' hne, fun _ => (by simp [h]), fun _ => hzero,
      fun h' => (by simp [h] at h'), by omega⟩

/-- A place of both kinds, behind the callback. -/
theorem Started.of_late (hx : Started x) (hcalls : x'.calls = x.calls)
    (hplace : x'.place.late = true) : Started x' := by
  have hplaces : x'.place = .destroy ∨ x'.place = .deleteTimer ∨ x'.place = .finished := by
    cases h : x'.place <;> simp_all
  have honce := hx.once
  rcases hplaces with h | h | h <;>
    exact ⟨fun _ => (by simp [h]), fun _ => (by simp [h]), fun h' => (by simp [h] at h'),
      fun h' => (by simp [h] at h'), by omega⟩

theorem Started.resolve (hx : Started x) (result : TimerOperationResult) :
    Started (x.resolve result) := by
  refine resolve_rec x result ?_ ?_ ?_
  · intro _
    exact hx
  · intro _ hplace
    exact hx.of_early (by simp [hplace]) rfl (by simp)
  · intro _ _
    exact hx.of_place rfl rfl rfl

theorem stable_started : Stable Started := by
  intro x x' hx hmove
  cases hmove with
  | construct isDisposed hplace =>
      unfold TimerState.construct
      split <;> exact hx.of_early (by simp [hplace]) rfl (by simp)
  | run hplace => exact hx.of_early (by simp [hplace]) rfl (by simp)
  | runSwitched hplace =>
      exact hx.of_switch (by simp [hplace]) rfl rfl (fun h => (hx.invokeAfter h).1 hplace) (by simp)
  | remove hplace => exact hx.of_late rfl (by simp)
  | next hnext =>
      cases next_of_next hnext with
      | suspend hplace | goOn hplace => exact hx.of_early (by simp [hplace]) rfl (by simp)
      | resume hplace =>
          have hzero := hx.early (by simp [hplace])
          unfold TimerState.resume
          split
          next hkind =>
            split
            next => exact hx.of_late rfl (by simp)
            next =>
              exact ⟨fun _ => (by simp), fun h => absurd hkind h, fun _ => hzero,
                fun h => (by simp at h), hx.once⟩
          next hkind => exact hx.of_switch (by simp [hplace]) rfl rfl (by simp [hkind]) (by simp)
          next hkind => exact hx.of_switch (by simp [hplace]) rfl rfl (by simp [hkind]) (by simp)
      | enter hplace =>
          have hzero := hx.early (by simp [hplace])
          unfold TimerState.enter
          split
          next => exact hx.of_late rfl (by simp)
          next =>
            exact ⟨fun _ => (by simp), fun h => absurd hplace (hx.executeAfter h).1,
              fun h => (by simp at h), fun _ => (by simp [hzero]), by simp [hzero]⟩
      | leave | called | destroy => exact hx.of_late rfl (by simp)
      | call hplace =>
          have hzero := hx.early (by simp [hplace])
          exact ⟨fun h => absurd hplace (hx.invokeAfter h).2.1, fun _ => (by simp),
            fun h => (by simp at h), fun _ => (by simp [hzero]), by simp [hzero]⟩
  | setCancelled | takeTimer | cancelReturned | fire | osReturn => exact hx.of_place rfl rfl rfl
  | resolve => exact hx.resolve _
  | osResolve => exact (hx.resolve .success).of_place rfl rfl rfl

/-! ### The timer of the system -/

/-- The system is still to call back. -/
def OsPending (x : TimerState) : Prop := x.os = .armed ∨ x.os = .firing

/-- A coroutine that waits is waited for. -/
structure Pending (x : TimerState) : Prop where
  waiting : x.place = .awaiting → x.promise = none
  unresolved : x.promise = none →
    x.place = .create ∨ (x.place = .awaitTask ∨ x.place = .awaiting) ∧ OsPending x

/-- With a result there is nothing to wait for. -/
theorem Pending.of_promise (hpromise : x.promise ≠ none) (hplace : x.place ≠ .awaiting) :
    Pending x :=
  ⟨fun h => absurd h hplace, fun h => absurd h hpromise⟩

theorem Pending.promise_ne_none (hx : Pending x)
    (hplace : x.place ≠ .create ∧ x.place ≠ .awaitTask ∧ x.place ≠ .awaiting) :
    x.promise ≠ none := by
  intro h
  rcases hx.unresolved h with h | ⟨h | h, -⟩
  · exact hplace.1 h
  · exact hplace.2.1 h
  · exact hplace.2.2 h

theorem pending_resolve (hx : Pending x) (result : TimerOperationResult) :
    Pending (x.resolve result) := by
  refine resolve_rec x result ?_ ?_ ?_
  · intro _
    exact hx
  · intro _ _
    exact .of_promise (by simp) (by simp)
  · intro _ hplace
    exact .of_promise (by simp) hplace

theorem stable_pending : Stable Pending := by
  intro x x' hx hmove
  cases hmove with
  | construct isDisposed hplace =>
      unfold TimerState.construct
      split
      · exact .of_promise (by simp) (by simp)
      · exact ⟨fun h => by simp at h, fun _ => .inr ⟨.inl rfl, .inl rfl⟩⟩
  | run hplace | runSwitched hplace | remove hplace =>
      exact .of_promise (hx.promise_ne_none (by simp [hplace])) (by simp)
  | next hnext =>
      cases next_of_next hnext with
      | suspend hplace hpromise =>
          refine ⟨fun _ => hpromise, fun _ => .inr ⟨.inr rfl, ?_⟩⟩
          rcases hx.unresolved hpromise with h | ⟨-, h⟩
          · cases hplace.symm.trans h
          · exact h
      | goOn hplace hpromise => exact .of_promise hpromise (by simp)
      | resume hplace =>
          refine .of_promise (resume_promise.symm ▸ hx.promise_ne_none (by simp [hplace])) ?_
          rcases resume_place (x := x) with h | h | h | h <;> simp [h]
      | enter hplace =>
          have hpromise := hx.promise_ne_none (by simp [hplace])
          unfold TimerState.enter
          split <;> exact .of_promise hpromise (by simp)
      | leave hplace | call hplace | called hplace | destroy hplace =>
          exact .of_promise (hx.promise_ne_none (by simp [hplace])) (by simp)
  | setCancelled | cancelReturned => exact ⟨hx.waiting, hx.unresolved⟩
  | resolve => exact pending_resolve hx _
  | takeTimer hpromise =>
      exact .of_promise hpromise fun h => hpromise (hx.waiting h)
  | fire hos =>
      refine ⟨hx.waiting, fun h => (hx.unresolved h).imp_right fun h => ⟨h.1, .inr rfl⟩⟩
  | osResolve hos =>
      refine .of_promise (promise_resolve x _) ?_
      exact fun h => promise_resolve x _ ((pending_resolve hx .success).waiting h)
  | osReturn hos =>
      refine ⟨hx.waiting, fun h => .inl ?_⟩
      rcases hx.unresolved h with h | ⟨-, h | h⟩
      · exact h
      · cases hos.symm.trans h
      · cases hos.symm.trans h

/-! ### The flags -/

/-- What has stopped the callback. -/
def Excused (x : TimerState) : Prop := x.cancelledByClient = true ∨ x.disposedFirst = true

theorem Excused.setCancelled (h : Excused x) (byClient : Bool) :
    Excused (x.setCancelled byClient) :=
  h.imp (fun h => by simp [h]) fun h => by simp [h]

/-- What has been set aside for the flag or for the result has been excused, and the manager only
stops a callback that has not been started. -/
structure Cancelled (x : TimerState) : Prop where
  cancelled : x.cancelled = true → x.calls = 0 → Excused x
  promised : x.promise = some .cancelled → Excused x
  late : x.kind = .invokeAfter → x.place.late = true → x.calls = 0 → Excused x
  disposed : x.kind = .invokeAfter → x.disposedFirst = true → x.cancelled = true ∧ x.calls = 0

theorem Cancelled.resolve (hx : Cancelled x) {result : TimerOperationResult}
    (hresult : result = .cancelled → x.cancelledByClient = true) :
    Cancelled (x.resolve result) := by
  obtain ⟨h₁, h₂, h₃, h₄⟩ := hx
  have hpromised : some result = some TimerOperationResult.cancelled → Excused x := fun h =>
    .inl (hresult (Option.some.inj h))
  refine resolve_rec x result ?_ ?_ ?_
  · intro _
    exact ⟨h₁, h₂, h₃, h₄⟩
  · intro _ _
    exact ⟨h₁, hpromised, fun _ h => by simp at h, h₄⟩
  · intro _ _
    exact ⟨h₁, hpromised, h₃, h₄⟩

theorem stable_cancelled : Stable fun x => Started x ∧ Cancelled x := by
  rintro x x' ⟨hstarted, hx⟩ hmove
  refine ⟨stable_started hstarted hmove, ?_⟩
  cases hmove with
  | construct isDisposed hplace =>
      have hzero := hstarted.early (by simp [hplace])
      unfold TimerState.construct
      split
      · exact ⟨fun _ _ => .inr rfl, fun _ => .inr rfl, fun _ h => (by simp at h),
          fun _ _ => ⟨rfl, hzero⟩⟩
      · exact ⟨hx.cancelled, hx.promised, fun _ h => (by simp at h), hx.disposed⟩
  | run | runSwitched =>
      exact ⟨hx.cancelled, hx.promised, fun _ h => (by simp at h), hx.disposed⟩
  | remove hplace =>
      exact ⟨hx.cancelled, hx.promised, fun h _ => hx.late h (by simp [hplace]), hx.disposed⟩
  | next hnext =>
      cases next_of_next hnext with
      | suspend | goOn =>
          exact ⟨hx.cancelled, hx.promised, fun _ h => (by simp at h), hx.disposed⟩
      | resume hplace =>
          unfold TimerState.resume
          split
          next =>
            refine ⟨hx.cancelled, hx.promised, fun _ h _ => ?_, hx.disposed⟩
            -- Only the result lets the section be left out.
            by_cases hpromise : x.promise = some .cancelled
            · exact hx.promised hpromise
            · simp [hpromise] at h
          next => exact ⟨hx.cancelled, hx.promised, fun _ h => (by simp at h), hx.disposed⟩
          next => exact ⟨hx.cancelled, hx.promised, fun _ h => (by simp at h), hx.disposed⟩
      | enter =>
          unfold TimerState.enter
          split
          next hcancelled =>
            exact ⟨hx.cancelled, hx.promised, fun _ _ => hx.cancelled hcancelled, hx.disposed⟩
          next hcancelled =>
            exact ⟨fun h => absurd h hcancelled, hx.promised, fun _ h => (by simp at h),
              fun h h' => absurd (hx.disposed h h').1 hcancelled⟩
      | leave hplace =>
          have hone := hstarted.running (.inl hplace)
          exact ⟨hx.cancelled, hx.promised, fun _ _ h => (by simp [hone] at h), hx.disposed⟩
      | call hplace =>
          exact ⟨fun _ h => (by simp at h), hx.promised, fun _ h => (by simp at h),
            fun h => absurd hplace (hstarted.invokeAfter h).2.1⟩
      | called hplace =>
          exact ⟨hx.cancelled, hx.promised, fun h => absurd hplace (hstarted.invokeAfter h).2.2,
            hx.disposed⟩
      | destroy hplace =>
          exact ⟨hx.cancelled, hx.promised, fun h _ => hx.late h (by simp [hplace]), hx.disposed⟩
  | setCancelled byClient =>
      refine ⟨fun _ hzero => ?_, fun h => (hx.promised h).setCancelled byClient,
        fun h hlate hzero => (hx.late h hlate hzero).setCancelled byClient, fun h hdisposed => ?_⟩
      · cases byClient with
        | true => exact .inl (by simp)
        | false => exact .inr (by simpa using .inr hzero)
      · refine ⟨rfl, ?_⟩
        rcases Bool.or_eq_true_iff.1 hdisposed with hdisposed | hfirst
        · exact (hx.disposed h hdisposed).2
        · simpa using (Bool.and_eq_true_iff.1 hfirst).2
  | resolve byClient hstopped =>
      refine hx.resolve fun hresult => hstopped.2.2.2 ?_
      cases byClient with
      | true => rfl
      | false => cases hresult
  | takeTimer | cancelReturned | fire | osReturn =>
      exact ⟨hx.cancelled, hx.promised, hx.late, hx.disposed⟩
  | osResolve =>
      have hresolve : Cancelled (x.resolve .success) := hx.resolve fun h => (by cases h)
      obtain ⟨h₁, h₂, h₃, h₄⟩ := hresolve
      exact ⟨h₁, h₂, h₃, h₄⟩

/-! ### A client that has cancelled -/

/-- The callback does not run, and is not to be started. -/
def Over (x : TimerState) : Prop := Stopped true x ∨ Removed x

theorem Over.not_callback (hx : Over x) : x.place ≠ .callback := by
  rcases hx with hx | hx | hx
  · exact hx.2.1
  · simp [hx]
  · simp [hx]

theorem removed_resolve (hx : Removed x) (result : TimerOperationResult) :
    Removed (x.resolve result) := by
  refine resolve_rec x result ?_ ?_ ?_
  · intro _
    exact hx
  · intro _ hplace
    rcases hx with hx | hx <;> cases hx.symm.trans hplace
  · intro _ _
    exact hx

theorem stable_removed : Stable Removed := by
  intro x x' hx hmove
  have hplace : ∀ place : Place, place ≠ .deleteTimer ∧ place ≠ .finished → x.place ≠ place := by
    rintro place ⟨hdelete, hfinished⟩ rfl
    exact hx.elim hdelete hfinished
  cases hmove with
  | construct _ h | run h | runSwitched h | remove h => exact absurd h (hplace _ (by simp))
  | next hnext =>
      cases next_of_next hnext with
      | suspend h | goOn h | resume h | enter h | leave h | call h | called h =>
          exact absurd h (hplace _ (by simp))
      | destroy => exact .inr rfl
  | setCancelled | takeTimer | cancelReturned | fire | osReturn => exact hx
  | resolve => exact removed_resolve hx _
  | osResolve => exact removed_resolve (x := x) hx .success

theorem stable_over : Stable Over := fun hx hmove =>
  hx.imp (stable_stopped true · hmove) (stable_removed · hmove)

/-- Only a call that has stopped the timer, or has not found it, returns. -/
theorem cancelReturned_of_move (hmove : Move x x') (h : x'.cancelReturned = true) :
    x.cancelReturned = true ∨ Over x := by
  cases hmove with
  | cancelReturned hover => exact .inr hover
  | construct =>
      unfold TimerState.construct at h
      split at h <;> exact .inl h
  | run | runSwitched | remove | setCancelled | takeTimer | fire | osReturn => exact .inl h
  | next hnext =>
      cases next_of_next hnext with
      | suspend | goOn | leave | call | called | destroy => exact .inl h
      | resume =>
          unfold TimerState.resume at h
          split at h <;> exact .inl h
      | enter =>
          unfold TimerState.enter at h
          split at h <;> exact .inl h
  | resolve | osResolve =>
      simp only [TimerState.osResolve, TimerState.resolve] at h
      split at h <;> exact .inl h

theorem stable_held : Stable fun x => x.cancelReturned = true → Over x := fun hx hmove h =>
  stable_over ((cancelReturned_of_move hmove h).elim hx id) hmove

theorem kind_of_move (hmove : Move x x') : x'.kind = x.kind := by
  cases hmove with
  | construct =>
      unfold TimerState.construct
      split <;> rfl
  | run | runSwitched | remove | setCancelled | takeTimer | cancelReturned | fire | osReturn => rfl
  | next hnext =>
      cases next_of_next hnext with
      | suspend | goOn | leave | call | called | destroy => rfl
      | resume =>
          unfold TimerState.resume
          split <;> rfl
      | enter =>
          unfold TimerState.enter
          split <;> rfl
  | resolve | osResolve =>
      simp only [TimerState.osResolve, TimerState.resolve]
      split <;> rfl

theorem calls_resolve (x : TimerState) (result : TimerOperationResult) :
    (x.resolve result).calls = x.calls := by
  unfold TimerState.resolve
  split <;> rfl

/-- The callback of a client is not started any more. -/
theorem calls_of_move (hstarted : Started x) (hkind : x.kind = .invokeAfter) (hover : Over x)
    (hmove : Move x x') : x'.calls = x.calls := by
  cases hmove with
  | construct =>
      unfold TimerState.construct
      split <;> rfl
  | run | runSwitched | remove | setCancelled | takeTimer | cancelReturned | fire | osReturn => rfl
  | next hnext =>
      cases next_of_next hnext with
      | suspend | goOn | leave | called | destroy => rfl
      | resume =>
          unfold TimerState.resume
          split <;> rfl
      | enter hplace =>
          have hcancelled : x.cancelled = true := by
            rcases hover with h | h | h
            · exact h.1
            · cases hplace.symm.trans h
            · cases hplace.symm.trans h
          rw [TimerState.enter, if_pos hcancelled]
      | call hplace => exact absurd hplace (hstarted.invokeAfter hkind).2.1
  | resolve => exact calls_resolve x _
  | osResolve => exact calls_resolve x .success

/-- The client whose timer it was will see no call. -/
structure Silent (calls : ℕ) (x : TimerState) : Prop where
  started : Started x
  kind : x.kind = .invokeAfter
  ended : Over x
  calls : x.calls = calls

theorem stable_silent (calls : ℕ) : Stable (Silent calls) := fun hx hmove =>
  ⟨stable_started hx.started hmove, (kind_of_move hmove).trans hx.kind, stable_over hx.ended hmove,
    (calls_of_move hx.started hx.kind hx.ended hmove).trans hx.calls⟩

end Moves

/-! ### Every run -/

/-- No timer of the system and no continuation is to come, and the coroutine is not on its way to
the callback. -/
def Quiet (x : TimerState) : Prop :=
  ¬ OsPending x ∧ (x.place.early = true → x.place = .awaiting)

/-- Made by `invokeAfter`, and not cancelled by `cancelInvokeAfter`. -/
def Wanted (x : TimerState) : Prop := x.kind = .invokeAfter ∧ x.cancelledByClient = false

/-- A callback is started once at most, not behind a `cancelInvokeAfter` that has returned, and in
the end it has been called unless it was cancelled. -/
structure Sound (s : Win32TimerManager) : Prop where
  once : ∀ x ∈ s.timers, x.calls ≤ 1
  silent : ∀ timer x, s.timers[timer]? = some x → x.kind = .invokeAfter →
    x.cancelReturned = true → x.place ≠ .callback ∧ ∀ s', Steps step Free s s' →
      Has s' timer fun x' => x'.place ≠ .callback ∧ x'.calls = x.calls
  called : ∀ x ∈ s.timers, Wanted x → Quiet x → x.calls = 1

/-- The step is not the one of `dispose` that stops a callback not started yet, and makes no timer
of a manager that has been disposed. -/
def Meets (s : Win32TimerManager) : Action → Prop
  | .work thread => ∀ stack, s.threads[thread]? = some stack → ∀ timer x,
      s.timers[timer]? = some x → x.kind = .invokeAfter →
        (∀ rest, stack = .body timer :: rest → x.place = .create → s.isDisposed = false) ∧
          ∀ timers rest, stack = .lockState none timer timers :: rest → x.calls ≠ 0
  | _            => True

section Manager

variable {s s' : Win32TimerManager} {threads timer : ℕ} {x : TimerState}

theorem started_of_steps (h : Steps step Free (start threads) s)
    (hx : s.timers[timer]? = some x) : Started x :=
  timer_invariant (fun _ => ⟨fun _ => (by simp), fun _ => (by simp), fun _ => rfl,
    fun h => (by simp at h), by simp⟩) stable_started h hx

theorem pending_of_steps (h : Steps step Free (start threads) s)
    (hx : s.timers[timer]? = some x) : Pending x :=
  timer_invariant (fun _ => ⟨fun _ => rfl, fun _ => .inl rfl⟩) stable_pending h hx

theorem cancelled_of_steps (h : Steps step Free (start threads) s)
    (hx : s.timers[timer]? = some x) : Cancelled x := by
  refine (timer_invariant (fun kind => ⟨?_, ?_⟩) stable_cancelled h hx).2
  · exact ⟨fun _ => (by simp), fun _ => (by simp), fun _ => rfl, fun h => (by simp at h), by simp⟩
  · exact ⟨fun h => (by cases h), fun h => (by cases h), fun _ h => (by cases h),
      fun _ h => (by cases h)⟩

theorem over_of_steps (h : Steps step Free (start threads) s) (hx : s.timers[timer]? = some x)
    (hreturned : x.cancelReturned = true) : Over x :=
  timer_invariant (P := fun x => x.cancelReturned = true → Over x) (fun _ h => by cases h)
    stable_held h hx hreturned

/-- What has come to rest is behind its callback, or at its start. -/
theorem calls_of_quiet (h : Steps step Free (start threads) s) (hx : s.timers[timer]? = some x)
    (hwanted : Wanted x) (hquiet : Quiet x) : x.calls = 1 ↔ x.disposedFirst = false := by
  have hstarted := started_of_steps h hx
  have hcancelled := cancelled_of_steps h hx
  constructor
  · intro hone
    by_contra hdisposed
    have hzero := (hcancelled.disposed hwanted.1 (by simpa using hdisposed)).2
    cases hone.symm.trans hzero
  · intro hdisposed
    by_cases hearly : x.place.early = true
    · have hplace := hquiet.2 hearly
      have hpending := pending_of_steps h hx
      rcases hpending.unresolved (hpending.waiting hplace) with hcreate | ⟨-, hos⟩
      · cases hplace.symm.trans hcreate
      · exact absurd hos hquiet.1
    · by_cases hlate : x.place.late = true
      · rcases Nat.le_one_iff_eq_zero_or_eq_one.1 hstarted.once with hzero | hone
        · rcases hcancelled.late hwanted.1 hlate hzero with hclient | hdispose
          · cases hclient.symm.trans hwanted.2
          · cases hdispose.symm.trans hdisposed
        · exact hone
      · refine hstarted.running ?_
        cases hplace : x.place <;> simp_all

theorem silent_of_steps (h : Steps step Free (start threads) s) (hx : s.timers[timer]? = some x)
    (hkind : x.kind = .invokeAfter) (hreturned : x.cancelReturned = true)
    (h' : Steps step Free s s') :
    Has s' timer fun x' => x'.place ≠ .callback ∧ x'.calls = x.calls := by
  have hsilent : Has s timer (Silent x.calls) :=
    ⟨x, hx, started_of_steps h hx, hkind, over_of_steps h hx hreturned, rfl⟩
  obtain ⟨x', hx', hsilent⟩ :=
    hsilent.steps (stable_silent x.calls) (inv_of_steps (inv_start threads) h) h'
  exact ⟨x', hx', hsilent.ended.not_callback, hsilent.calls⟩

theorem sound_iff (h : Steps step Free (start threads) s) :
    Sound s ↔ ∀ x ∈ s.timers, Wanted x → Quiet x → x.disposedFirst = false := by
  constructor
  · intro hsound x hmem hwanted hquiet
    obtain ⟨timer, hx⟩ := List.mem_iff_getElem?.1 hmem
    exact (calls_of_quiet h hx hwanted hquiet).1 (hsound.called x hmem hwanted hquiet)
  · intro hdisposed
    refine ⟨fun x hmem => ?_, fun timer x hx hkind hreturned => ?_,
      fun x hmem hwanted hquiet => ?_⟩
    · obtain ⟨timer, hx⟩ := List.mem_iff_getElem?.1 hmem
      exact (started_of_steps h hx).once
    · exact ⟨(over_of_steps h hx hreturned).not_callback,
        fun s' h' => silent_of_steps h hx hkind hreturned h'⟩
    · obtain ⟨timer, hx⟩ := List.mem_iff_getElem?.1 hmem
      exact (calls_of_quiet h hx hwanted hquiet).2 (hdisposed x hmem hwanted hquiet)

/-! ### Runs without the disposed manager -/

/-- `dispose` has not come before the callback. -/
def Undisposed (x : TimerState) : Prop := x.kind = .invokeAfter → x.disposedFirst = false

theorem undisposed_resolve (hx : Undisposed x) (result : TimerOperationResult) :
    Undisposed (x.resolve result) := by
  unfold TimerState.resolve
  split <;> exact hx

theorem undisposed_next {thread : ℕ} {x' : TimerState} {leaves : Bool} (hx : Undisposed x)
    (hnext : x.next thread = some (x', leaves)) : Undisposed x' := by
  cases next_of_next hnext with
  | suspend | goOn | leave | call | called | destroy => exact hx
  | resume =>
      unfold Undisposed
      intro hkind
      unfold TimerState.resume at hkind ⊢
      split at hkind <;> exact hx hkind
  | enter =>
      unfold TimerState.enter
      split <;> exact hx

theorem undisposed_of_step {a : Action} (hs : ∀ x ∈ s.timers, Undisposed x) (ha : Meets s a)
    (h : Stepped s a s') : ∀ x ∈ s'.timers, Undisposed x := by
  cases h with
  | invokeAfter kind => exact forall_of_concat hs fun _ => rfl
  | cancelInvokeAfter | disposeAgain | dispose | lockCancel | found | lockDispose | loop => exact hs
  | notFound | unlock => exact forall_of_unlock hs (fun _ hx => hx) _ _ _
  | run _ hx | runSwitched _ hx | remove _ hx | deleteTimer _ hx | fire hx | osReturn hx =>
      have hbefore := hs _ (List.mem_of_getElem? hx)
      exact forall_of_set hs hbefore
  | create hstack hx hplace =>
      refine forall_of_set hs ?_
      have hbefore := hs _ (List.mem_of_getElem? hx)
      unfold TimerState.construct
      split
      next hdisposed =>
        intro hkind
        have hmeets := (ha _ hstack _ _ hx hkind).1 _ rfl hplace
        cases hdisposed.symm.trans hmeets
      next => exact hbefore
  | next hstack hx hnext =>
      exact forall_of_set hs (undisposed_next (hs _ (List.mem_of_getElem? hx)) hnext)
  | @lockState thread timer x client timers stack hstack hx =>
      refine forall_of_set hs fun hkind => ?_
      have hbefore := hs _ (List.mem_of_getElem? hx) hkind
      cases client with
      | some client => simp [hbefore]
      | none =>
          have hcalls := (ha _ hstack _ _ hx hkind).2 _ _ rfl
          simp [hbefore, hcalls]
  | resolve hstack hx =>
      have hbefore := hs _ (List.mem_of_getElem? hx)
      exact forall_of_set hs (undisposed_resolve hbefore _)
  | osResolve hx =>
      have hbefore := hs _ (List.mem_of_getElem? hx)
      exact forall_of_set hs (undisposed_resolve hbefore .success)

theorem undisposed_of_steps (h : Steps step Meets (start threads) s) :
    ∀ x ∈ s.timers, Undisposed x :=
  h.invariant (P := fun s => ∀ x ∈ s.timers, Undisposed x)
    (fun hs ha h => undisposed_of_step hs ha (stepped_of_step h)) (fun x hmem => by cases hmem)

end Manager

/-- **Exactly the timers that the manager stops are not called.** -/
theorem callbacks_sound_iff (threads : ℕ) :
    (∀ s, Steps step Free (start threads) s →
      (Sound s ↔ ∀ x ∈ s.timers, Wanted x → Quiet x → x.disposedFirst = false)) ∧
    ∀ s, Steps step Meets (start threads) s → Sound s := by
  refine ⟨fun s h => sound_iff h, fun s h => ?_⟩
  have hfree : Steps step Free (start threads) s := h.mono fun _ _ _ => trivial
  exact (sound_iff hfree).2 fun x hmem hwanted _ => undisposed_of_steps h x hmem hwanted.1

/-- A timer that `dispose` finds before the system has called back. -/
def disposeBeforeFire : List Action :=
  [.invokeAfter 0 .invokeAfter, .work 0, .work 0, .dispose 0, .work 0, .work 0, .work 0, .work 0,
    .work 0, .work 0, .run 0 0, .work 0, .work 0, .work 0, .work 0]

/-- The coroutine has come to its end, and has left its callback out. -/
def uncalled : Win32TimerManager where
  isDisposed := true
  timers :=
    [{  kind := .invokeAfter
        place := .finished
        promise := some .shutingDown
        cancelled := true
        os := .deleted
        refs := 1
        returned := true
        disposedFirst := true }]
  threads := [[]]

/-- The result is `ShutingDown`, for which the callback is to be called, but the flag is set too. -/
theorem disposed_without_call :
    Steps step Free (start 1) uncalled ∧ ¬ Sound uncalled := by
  constructor
  · have hexec : exec step (start 1) disposeBeforeFire = some uncalled := rfl
    exact exec_steps (allowed_free disposeBeforeFire _) hexec
  · intro h
    have hone := h.called _ List.mem_cons_self ⟨rfl, rfl⟩ ⟨by simp [OsPending], by simp⟩
    cases hone

end MyEngine.Async.Timers
