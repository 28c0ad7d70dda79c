import MyEngine.Async.TimerManager

/-!
# Async — runs of the TimerManager

* `Move`: what a step can do to a timer.
* `Inv`: what the calls under way know of the timers, and which timers are in the list.
* `Evolves`: a step of the manager is at most one `Move` of each timer, or makes a new one.
* `timer_invariant`: what every `Move` preserves holds of all timers in every run.
-/

namespace MyEngine.Async.Timers

open MyEngine.Runs

/-! ### Moves -/

/-- Cancelled, and the callback does not run. -/
def Stopped (byClient : Bool) (x : TimerState) : Prop :=
  x.cancelled = true ∧ x.place ≠ .callback ∧ x.place ≠ .create ∧
    (byClient = true → x.cancelledByClient = true)

/-- Out of the list of the manager. -/
def Removed (x : TimerState) : Prop := x.place = .deleteTimer ∨ x.place = .finished

inductive Move (x : TimerState) : TimerState → Prop where
  | construct (isDisposed : Bool) (hplace : x.place = .create) : Move x (x.construct isDisposed)
  | run (hplace : x.place = .posted) : Move x { x with place := .resumed }
  | runSwitched (hplace : x.place = .switching) : Move x { x with place := .switched }
  | remove (hplace : x.place = .destroy) : Move x { x with place := .deleteTimer }
  | next {thread : ℕ} {x' : TimerState} {leaves : Bool}
      (hnext : x.next thread = some (x', leaves)) : Move x x'
  | setCancelled (byClient : Bool) (hmutex : x.mutex = none) (hplace : x.place ≠ .create) :
      Move x (x.setCancelled byClient)
  | resolve (byClient : Bool) (hstopped : Stopped byClient x) :
      Move x (x.resolve (if byClient then .cancelled else .shutingDown))
  | takeTimer (hpromise : x.promise ≠ none) (hwaits : x.deleteWaits = false) : Move x x.takeTimer
  | cancelReturned (h : Stopped true x ∨ Removed x) : Move x { x with cancelReturned := true }
  | fire (hos : x.os = .armed) : Move x x.fire
  | osResolve (hos : x.os = .firing) : Move x x.osResolve
  | osReturn (hos : x.os = .resolved) : Move x x.osReturn

/-- Every move preserves it. -/
def Stable (P : TimerState → Prop) : Prop := ∀ {x x'}, P x → Move x x' → P x'

/-- What the coroutine does next, one constructor for each place. -/
inductive Next (x : TimerState) (thread : ℕ) : TimerState → Bool → Prop where
  | suspend (hplace : x.place = .awaitTask) (hpromise : x.promise = none) :
      Next x thread x.suspend true
  | goOn (hplace : x.place = .awaitTask) (hpromise : x.promise ≠ none) : Next x thread x.goOn false
  | resume (hplace : x.place = .resumed) :
      Next x thread x.resume (x.resume.place = .switching)
  | enter (hplace : x.place = .lockState) (hmutex : x.mutex = none) :
      Next x thread (x.enter thread) false
  | leave (hplace : x.place = .callback) : Next x thread x.leave false
  | call (hplace : x.place = .switched) : Next x thread x.call false
  | called (hplace : x.place = .calling) : Next x thread { x with place := .destroy } false
  | destroy (hplace : x.place = .deleteTimer) (hwaits : x.deleteWaits = false) :
      Next x thread x.destroy true

theorem next_of_next {x x' : TimerState} {thread : ℕ} {leaves : Bool}
    (h : x.next thread = some (x', leaves)) : Next x thread x' leaves := by
  unfold TimerState.next at h
  split at h
  next hplace =>
    split at h
    next hpromise =>
      cases h
      exact .suspend hplace (Option.isNone_iff_eq_none.1 hpromise)
    next hpromise =>
      cases h
      exact .goOn hplace fun hnone => hpromise (Option.isNone_iff_eq_none.2 hnone)
  next hplace =>
    cases h
    exact .resume hplace
  next hplace =>
    split at h
    next hmutex =>
      cases h
      exact .enter hplace (Option.isNone_iff_eq_none.1 hmutex)
    next => cases h
  next hplace =>
    cases h
    exact .leave hplace
  next hplace =>
    cases h
    exact .call hplace
  next hplace =>
    cases h
    exact .called hplace
  next hplace =>
    split at h
    next => cases h
    next hwaits =>
      cases h
      exact .destroy hplace (Bool.not_eq_true _ ▸ hwaits)
  next => cases h

/-! ### What is known of a timer -/

section Fields

variable {x : TimerState}

@[simp]
theorem resume_cancelled : x.resume.cancelled = x.cancelled := by
  unfold TimerState.resume; split <;> rfl

@[simp]
theorem resume_cancelledByClient : x.resume.cancelledByClient = x.cancelledByClient := by
  unfold TimerState.resume; split <;> rfl

@[simp]
theorem resume_promise : x.resume.promise = x.promise := by
  unfold TimerState.resume; split <;> rfl

/-- The continuation goes to the section, to the destructor, or to the other callback. -/
theorem resume_place : x.resume.place = .destroy ∨ x.resume.place = .lockState ∨
    x.resume.place = .switching ∨ x.resume.place = .switched := by
  unfold TimerState.resume
  split
  · simp only [TimerState.releaseRef]
    split <;> simp
  · simp [TimerState.releaseRef]
  · simp [TimerState.releaseRef]

/-- The promise has a result, the coroutine waits for it, or has not come to `co_await`. -/
@[elab_as_elim]
theorem resolve_rec {motive : TimerState → Prop} (x : TimerState) (result : TimerOperationResult)
    (again : x.promise ≠ none → motive x)
    (posted : x.promise = none → x.place = .awaiting →
      motive { x with promise := some result, place := .posted })
    (early : x.promise = none → x.place ≠ .awaiting →
      motive { x with promise := some result }) : motive (x.resolve result) := by
  unfold TimerState.resolve
  split
  next hsome => exact again (Option.isSome_iff_ne_none.1 hsome)
  next hnone =>
    have hpromise : x.promise = none := by simpa using hnone
    by_cases hplace : x.place = .awaiting
    · rw [if_pos hplace]
      exact posted hpromise hplace
    · rw [if_neg hplace]
      exact early hpromise hplace

end Fields

theorem stopped_resolve {byClient : Bool} {x : TimerState} (hx : Stopped byClient x)
    (result : TimerOperationResult) : Stopped byClient (x.resolve result) := by
  refine resolve_rec x result ?_ ?_ ?_
  · intro _
    exact hx
  · intro _ _
    exact ⟨hx.1, by simp, by simp, hx.2.2.2⟩
  · intro _ _
    exact hx

theorem stable_stopped (byClient : Bool) : Stable (Stopped byClient) := by
  rintro x x' ⟨hcancelled, hcallback, hcreate, hclient⟩ hmove
  cases hmove with
  | construct isDisposed hplace => exact absurd hplace hcreate
  | run hplace | runSwitched hplace | remove hplace =>
      exact ⟨hcancelled, by simp, by simp, hclient⟩
  | next hnext =>
      cases next_of_next hnext with
      | suspend | goOn | leave | call | called | destroy =>
          exact ⟨hcancelled, by simp, by simp, hclient⟩
      | resume =>
          refine ⟨resume_cancelled.trans hcancelled, ?_, ?_, fun h => ?_⟩
          · rcases resume_place (x := x) with h | h | h | h <;> rw [h] <;> simp
          · rcases resume_place (x := x) with h | h | h | h <;> rw [h] <;> simp
          · rw [resume_cancelledByClient]
            exact hclient h
      | enter =>
          rw [TimerState.enter, if_pos hcancelled]
          exact ⟨hcancelled, by simp, by simp, hclient⟩
  | setCancelled other =>
      refine ⟨rfl, hcallback, hcreate, fun h => ?_⟩
      simp only [TimerState.setCancelled, hclient h, Bool.true_or]
  | takeTimer | cancelReturned | fire | osReturn => exact ⟨hcancelled, hcallback, hcreate, hclient⟩
  | resolve => exact stopped_resolve ⟨hcancelled, hcallback, hcreate, hclient⟩ _
  | osResolve => exact stopped_resolve (x := x) ⟨hcancelled, hcallback, hcreate, hclient⟩ .success

/-- The constructor has come to its end. -/
def Constructed (x : TimerState) : Prop := x.place ≠ .create

theorem constructed_resolve {x : TimerState} (hx : Constructed x) (result : TimerOperationResult) :
    Constructed (x.resolve result) := by
  refine resolve_rec x result ?_ ?_ ?_
  · intro _
    exact hx
  · intro _ _
    simp [Constructed]
  · intro _ _
    exact hx

theorem stable_constructed : Stable Constructed := by
  intro x x' hcreate hmove
  cases hmove with
  | construct isDisposed hplace => exact absurd hplace hcreate
  | run | runSwitched | remove => simp [Constructed]
  | next hnext =>
      cases next_of_next hnext with
      | suspend | goOn | leave | call | called | destroy => simp [Constructed]
      | resume =>
          rcases resume_place (x := x) with h | h | h | h <;> simp [Constructed, h]
      | enter =>
          unfold TimerState.enter
          split <;> simp [Constructed]
  | setCancelled | takeTimer | cancelReturned | fire | osReturn => exact hcreate
  | resolve => exact constructed_resolve hcreate _
  | osResolve => exact constructed_resolve (x := x) hcreate .success

theorem promise_resolve (x : TimerState) (result : TimerOperationResult) :
    (x.resolve result).promise ≠ none := by
  refine resolve_rec x result ?_ ?_ ?_
  · intro hpromise
    exact hpromise
  · intro _ _
    simp
  · intro _ _
    simp

theorem stable_promise : Stable fun x => x.promise ≠ none := by
  intro x x' hpromise hmove
  cases hmove with
  | construct isDisposed =>
      unfold TimerState.construct
      split
      · simp
      · exact hpromise
  | next hnext =>
      cases next_of_next hnext with
      | suspend | goOn | leave | call | called | destroy => exact hpromise
      | resume =>
          rw [resume_promise]
          exact hpromise
      | enter =>
          unfold TimerState.enter
          split <;> exact hpromise
  | run | runSwitched | remove | setCancelled | takeTimer | cancelReturned | fire | osReturn =>
      exact hpromise
  | resolve | osResolve => exact promise_resolve x _

/-- `invokeAfter` has returned the handle. -/
def Returned (x : TimerState) : Prop := x.returned = true ∧ Constructed x

theorem returned_resolve (x : TimerState) (result : TimerOperationResult) :
    (x.resolve result).returned = x.returned := by
  unfold TimerState.resolve; split <;> rfl

theorem os_resolve (x : TimerState) (result : TimerOperationResult) :
    (x.resolve result).os = x.os := by
  unfold TimerState.resolve; split <;> rfl

theorem stable_returned : Stable Returned := by
  intro x x' hreturned hmove
  refine ⟨?_, stable_constructed hreturned.2 hmove⟩
  obtain ⟨hreturned, -⟩ := hreturned
  cases hmove with
  | construct isDisposed =>
      unfold TimerState.construct
      split <;> exact hreturned
  | next hnext =>
      cases next_of_next hnext with
      | suspend | goOn | leave | call | called | destroy => simp [hreturned]
      | resume =>
          unfold TimerState.resume
          split <;> simp [hreturned]
      | enter =>
          unfold TimerState.enter
          split <;> exact hreturned
  | run | runSwitched | remove | setCancelled | takeTimer | cancelReturned | fire | osReturn =>
      exact hreturned
  | resolve | osResolve => exact (returned_resolve x _).trans hreturned

/-! ### The manager -/

/-- The timer exists and has the property. -/
def Has (s : Win32TimerManager) (timer : ℕ) (P : TimerState → Prop) : Prop :=
  ∃ x, s.timers[timer]? = some x ∧ P x

/-- What a call under way knows of the timers. -/
def Knows (s : Win32TimerManager) : Frame → Prop
  | .body timer                        => timer < s.timers.length
  | .cancelInvokeAfter timer           => Has s timer Returned
  | .find timer                        => Has s timer Returned
  | .dispose                           => True
  | .loop none timers                  => ∀ timer ∈ timers, Has s timer Constructed
  | .loop (some client) timers         =>
      timers = [client] ∧ Has s client Constructed ∨
        timers = [] ∧ Has s client (Stopped true)
  | .lockState none timer timers       => ∀ other ∈ timer :: timers, Has s other Constructed
  | .lockState (some client) timer timers =>
      client = timer ∧ timers = [] ∧ Has s timer Constructed
  | .resolve none timer timers         =>
      Has s timer (Stopped false) ∧ ∀ timer ∈ timers, Has s timer Constructed
  | .resolve (some client) timer timers =>
      client = timer ∧ timers = [] ∧ Has s timer (Stopped true)
  | .deleteTimer none timer timers     =>
      Has s timer (Stopped false) ∧ Has s timer (fun x => x.promise ≠ none) ∧
        ∀ timer ∈ timers, Has s timer Constructed
  | .deleteTimer (some client) timer timers =>
      client = timer ∧ timers = [] ∧ Has s timer (Stopped true) ∧
        Has s timer fun x => x.promise ≠ none

/-- What the timer itself keeps: a timer that has been handed out is made, and its lock is held for
the callback. -/
def Sane (x : TimerState) : Prop :=
  (x.returned = true → Constructed x) ∧ (x.mutex ≠ none ↔ x.place = .callback)

/-- In the list of the manager. -/
def Listed (x : TimerState) : Prop := Constructed x ∧ ¬ Removed x

/-- Holds of every state. -/
structure Inv (s : Win32TimerManager) : Prop where
  knows : ∀ stack ∈ s.threads, ∀ frame ∈ stack, Knows s frame
  nodup : s.timerStateList.Nodup
  listed : ∀ timer, timer ∈ s.timerStateList ↔ Has s timer Listed
  sane : ∀ (timer : ℕ) x, s.timers[timer]? = some x → Sane x

/-- A step takes each timer at most one move further, or makes a new one. -/
structure Evolves (s s' : Win32TimerManager) : Prop where
  move : ∀ (timer : ℕ) x, s.timers[timer]? = some x →
    ∃ x', s'.timers[timer]? = some x' ∧ (x' = x ∨ Move x x')
  fresh : ∀ (timer : ℕ) x', s'.timers[timer]? = some x' → s.timers[timer]? = none →
    ∃ kind, x' = .ofKind kind

section Steps

variable {s s' : Win32TimerManager} {a : Action} {timer : ℕ} {x x' : TimerState}
  {P : TimerState → Prop}

theorem Has.step (h : Has s timer P) (hstable : Stable P) (hs : Evolves s s') : Has s' timer P := by
  obtain ⟨x, hx, hP⟩ := h
  obtain ⟨x', hx', rfl | hmove⟩ := hs.move timer x hx
  · exact ⟨x', hx', hP⟩
  · exact ⟨x', hx', hstable hP hmove⟩

theorem Knows.step {frame : Frame} (h : Knows s frame) (hs : Evolves s s') : Knows s' frame := by
  cases frame with
  | body timer =>
      obtain ⟨x, hx⟩ : ∃ x, s.timers[timer]? = some x := ⟨_, List.getElem?_eq_getElem h⟩
      obtain ⟨x', hx', -⟩ := hs.move timer x hx
      exact (List.getElem?_eq_some_iff.1 hx').1
  | cancelInvokeAfter timer | find timer => exact Has.step h stable_returned hs
  | dispose => trivial
  | loop client timers =>
      cases client with
      | none => exact fun timer hmem => (h timer hmem).step stable_constructed hs
      | some client =>
          rcases h with ⟨htimers, h⟩ | ⟨htimers, h⟩
          · exact .inl ⟨htimers, h.step stable_constructed hs⟩
          · exact .inr ⟨htimers, h.step (stable_stopped true) hs⟩
  | lockState client timer timers =>
      cases client with
      | none => exact fun timer hmem => (h timer hmem).step stable_constructed hs
      | some client => exact ⟨h.1, h.2.1, h.2.2.step stable_constructed hs⟩
  | resolve client timer timers =>
      cases client with
      | none =>
          exact ⟨h.1.step (stable_stopped false) hs,
            fun timer hmem => (h.2 timer hmem).step stable_constructed hs⟩
      | some client => exact ⟨h.1, h.2.1, h.2.2.step (stable_stopped true) hs⟩
  | deleteTimer client timer timers =>
      cases client with
      | none =>
          exact ⟨h.1.step (stable_stopped false) hs, h.2.1.step stable_promise hs,
            fun timer hmem => (h.2.2 timer hmem).step stable_constructed hs⟩
      | some client =>
          exact ⟨h.1, h.2.1, h.2.2.1.step (stable_stopped true) hs,
            h.2.2.2.step stable_promise hs⟩

/-! ### Steps -/

theorem evolves_of_timers (h : s'.timers = s.timers) : Evolves s s' where
  move timer x hx := ⟨x, h ▸ hx, .inl rfl⟩
  fresh timer x' hx' hnone := by
    rw [h, hnone] at hx'
    cases hx'

theorem evolves_of_set (hx : s.timers[timer]? = some x) (hmove : Move x x')
    (h : s'.timers = s.timers.set timer x') : Evolves s s' where
  move other y hy := by
    rw [h]
    by_cases heq : timer = other
    · subst heq
      obtain rfl := Option.some.inj (hx.symm.trans hy)
      exact ⟨x', getElem?_replaced hx x', .inr hmove⟩
    · exact ⟨y, by rw [List.getElem?_set_ne heq, hy], .inl rfl⟩
  fresh other y hy hnone := by
    rw [h] at hy
    rcases getElem?_set_cases hy with ⟨rfl, -⟩ | ⟨-, hy⟩
    · cases hx.symm.trans hnone
    · cases hnone.symm.trans hy

theorem evolves_of_concat {kind : Kind} (h : s'.timers = s.timers ++ [.ofKind kind]) :
    Evolves s s' where
  move timer x hx := ⟨x, h ▸ getElem?_concat_of_some hx _, .inl rfl⟩
  fresh timer x' hx' hnone := by
    rw [h] at hx'
    rcases getElem?_concat_cases hx' with hx' | ⟨-, rfl⟩
    · cases hnone.symm.trans hx'
    · exact ⟨kind, rfl⟩

/-- What giving `m_mutex` back does. -/
theorem unlock_cases (s : Win32TimerManager) (thread : ℕ) (client : Option ℕ)
    (stack : List Frame) :
    (∃ timer x, client = some timer ∧ s.timers[timer]? = some x ∧
      s.unlock thread client stack = ({ s with mutex := none }.setStack thread stack).setTimer timer
        { x with cancelReturned := true }) ∨
      s.unlock thread client stack = { s with mutex := none }.setStack thread stack := by
  unfold Win32TimerManager.unlock
  dsimp only
  split
  next timer x h =>
    obtain ⟨timer', hclient, h⟩ := Option.bind_eq_some_iff.1 h
    obtain ⟨x', hx', h⟩ := Option.map_eq_some_iff.1 h
    obtain ⟨rfl, rfl⟩ := Prod.mk.inj h
    exact .inl ⟨timer', x', hclient, hx', rfl⟩
  next => exact .inr rfl

theorem evolves_of_unlock {thread : ℕ} {client : Option ℕ} {stack : List Frame}
    (h : ∀ timer, client = some timer → Has s timer fun x => Stopped true x ∨ Removed x) :
    Evolves s (s.unlock thread client stack) := by
  rcases unlock_cases s thread client stack with ⟨timer, x, hclient, hx, hunlock⟩ | hunlock
  · obtain ⟨x', hx', hstopped⟩ := h timer hclient
    obtain rfl := Option.some.inj (hx.symm.trans hx')
    rw [hunlock]
    exact evolves_of_set hx (.cancelReturned hstopped) rfl
  · rw [hunlock]
    exact evolves_of_timers rfl

theorem forall_of_set (hs : ∀ x ∈ s.timers, P x) (hx' : P x') :
    ∀ x ∈ (s.setTimer timer x').timers, P x := by
  intro x hmem
  rcases List.mem_or_eq_of_mem_set hmem with hmem | rfl
  · exact hs x hmem
  · exact hx'

theorem forall_of_unlock (hs : ∀ x ∈ s.timers, P x)
    (hreturn : ∀ x, P x → P { x with cancelReturned := true }) (thread : ℕ) (client : Option ℕ)
    (stack : List Frame) : ∀ x ∈ (s.unlock thread client stack).timers, P x := by
  rcases unlock_cases s thread client stack with ⟨timer, x, -, hx, heq⟩ | heq
  · rw [heq]
    exact forall_of_set hs (hreturn x (hs x (List.mem_of_getElem? hx)))
  · rw [heq]
    exact hs

theorem forall_of_concat {kind : Kind} (hs : ∀ x ∈ s.timers, P x) (hnew : P (.ofKind kind)) :
    ∀ x ∈ s.timers ++ [.ofKind kind], P x := by
  intro x hmem
  rcases List.mem_append.1 hmem with hmem | hmem
  · exact hs x hmem
  · rw [List.mem_singleton.1 hmem]
    exact hnew

theorem Inv.knows_top (hs : Inv s) {thread : ℕ} {frame : Frame} {stack : List Frame}
    (hstack : s.threads[thread]? = some (frame :: stack)) : Knows s frame :=
  hs.knows _ (List.mem_of_getElem? hstack) frame List.mem_cons_self

theorem Inv.stopped_of_resolve (hs : Inv s) {thread : ℕ} {client : Option ℕ} {timers : List ℕ}
    {stack : List Frame}
    (hstack : s.threads[thread]? = some (.resolve client timer timers :: stack)) :
    Has s timer (Stopped client.isSome) := by
  have hknows := hs.knows_top hstack
  cases client with
  | none => exact hknows.1
  | some client => exact hknows.2.2

theorem Inv.promise_of_deleteTimer (hs : Inv s) {thread : ℕ} {client : Option ℕ}
    {timers : List ℕ} {stack : List Frame}
    (hstack : s.threads[thread]? = some (.deleteTimer client timer timers :: stack)) :
    Has s timer fun x => x.promise ≠ none := by
  have hknows := hs.knows_top hstack
  cases client with
  | none => exact hknows.2.1
  | some client => exact hknows.2.2.2

theorem Inv.constructed_of_lockState (hs : Inv s) {thread : ℕ} {client : Option ℕ}
    {timers : List ℕ} {stack : List Frame}
    (hstack : s.threads[thread]? = some (.lockState client timer timers :: stack)) :
    Has s timer Constructed := by
  have hknows := hs.knows_top hstack
  cases client with
  | none => exact hknows timer List.mem_cons_self
  | some client => exact hknows.2.2

theorem Has.of_getElem? (h : Has s timer P) (hx : s.timers[timer]? = some x) : P x := by
  obtain ⟨x', hx', hP⟩ := h
  obtain rfl := Option.some.inj (hx.symm.trans hx')
  exact hP

theorem Inv.evolves (hs : Inv s) (h : Stepped s a s') : Evolves s s' := by
  cases h with
  | invokeAfter kind => exact evolves_of_concat rfl
  | cancelInvokeAfter | disposeAgain | dispose | lockCancel | found | lockDispose | loop =>
      exact evolves_of_timers rfl
  | run hstack hx hplace => exact evolves_of_set hx (.run hplace) rfl
  | runSwitched hstack hx hplace => exact evolves_of_set hx (.runSwitched hplace) rfl
  | create hstack hx hplace => exact evolves_of_set hx (.construct s.isDisposed hplace) rfl
  | remove hstack hx hplace => exact evolves_of_set hx (.remove hplace) rfl
  | next hstack hx hnext => exact evolves_of_set hx (.next hnext) rfl
  | notFound hstack hmem =>
      refine evolves_of_unlock fun timer hclient => ?_
      obtain rfl := Option.some.inj hclient
      obtain ⟨x, hx, hreturned⟩ := hs.knows_top hstack
      refine ⟨x, hx, .inr ?_⟩
      by_contra hnot
      exact hmem ((hs.listed _).2 ⟨x, hx, hreturned.2, hnot⟩)
  | @unlock thread client stack hstack =>
      refine evolves_of_unlock fun timer hclient => ?_
      subst hclient
      rcases hs.knows_top hstack with ⟨htimers, -⟩ | ⟨-, x, hx, hstopped⟩
      · cases htimers
      · exact ⟨x, hx, .inl hstopped⟩
  | lockState hstack hx hmutex =>
      have hconstructed := (hs.constructed_of_lockState hstack).of_getElem? hx
      exact evolves_of_set hx (.setCancelled _ hmutex hconstructed) rfl
  | resolve hstack hx =>
      have hstopped := (hs.stopped_of_resolve hstack).of_getElem? hx
      exact evolves_of_set hx (.resolve _ hstopped) rfl
  | deleteTimer hstack hx hwaits =>
      have hpromise := (hs.promise_of_deleteTimer hstack).of_getElem? hx
      exact evolves_of_set hx (.takeTimer hpromise hwaits) rfl
  | fire hx hos => exact evolves_of_set hx (.fire hos) rfl
  | osResolve hx hos => exact evolves_of_set hx (.osResolve hos) rfl
  | osReturn hx hos => exact evolves_of_set hx (.osReturn hos) rfl

theorem has_iff (hx : s.timers[timer]? = some x) : Has s timer P ↔ P x :=
  ⟨fun h => h.of_getElem? hx, fun h => ⟨x, hx, h⟩⟩

theorem has_set_self (hx : s.timers[timer]? = some x) (h : s'.timers = s.timers.set timer x') :
    Has s' timer P ↔ P x' :=
  has_iff (h ▸ getElem?_replaced hx x')

theorem has_set_ne {other : ℕ} (h : s'.timers = s.timers.set timer x') (hne : timer ≠ other) :
    Has s' other P ↔ Has s other P := by
  unfold Has
  rw [h, List.getElem?_set_ne hne]

theorem has_iff_of_set (hx : s.timers[timer]? = some x) (h : s'.timers = s.timers.set timer x')
    (hP : P x' ↔ P x) (other : ℕ) : Has s' other P ↔ Has s other P := by
  by_cases heq : timer = other
  · subst heq
    rw [has_set_self hx h, has_iff hx]
    exact hP
  · exact has_set_ne h heq

theorem has_iff_of_timers (h : s'.timers = s.timers) (other : ℕ) :
    Has s' other P ↔ Has s other P := by
  unfold Has
  rw [h]

theorem has_iff_of_concat {kind : Kind} (h : s'.timers = s.timers ++ [.ofKind kind])
    (hP : ¬ P (.ofKind kind)) (other : ℕ) : Has s' other P ↔ Has s other P := by
  unfold Has
  rw [h]
  constructor
  · rintro ⟨x, hx, hPx⟩
    rcases getElem?_concat_cases hx with hx | ⟨-, rfl⟩
    · exact ⟨x, hx, hPx⟩
    · exact absurd hPx hP
  · rintro ⟨x, hx, hPx⟩
    exact ⟨x, getElem?_concat_of_some hx _, hPx⟩

theorem listed_of_place (h : x'.place = x.place) : Listed x' ↔ Listed x := by
  unfold Listed Constructed Removed
  rw [h]

/-- In the list before and behind. -/
theorem listed_of_places (h : x.place ≠ .create ∧ x.place ≠ .deleteTimer ∧ x.place ≠ .finished)
    (h' : x'.place ≠ .create ∧ x'.place ≠ .deleteTimer ∧ x'.place ≠ .finished) :
    Listed x' ↔ Listed x :=
  iff_of_true ⟨h'.1, fun hremoved => hremoved.elim h'.2.1 h'.2.2⟩
    ⟨h.1, fun hremoved => hremoved.elim h.2.1 h.2.2⟩

theorem listed_resolve (x : TimerState) (result : TimerOperationResult) :
    Listed (x.resolve result) ↔ Listed x := by
  refine resolve_rec x result ?_ ?_ ?_
  · intro _
    rfl
  · intro _ hplace
    exact listed_of_places (by simp [hplace]) (by simp)
  · intro _ _
    exact listed_of_place rfl

/-- The coroutine itself leaves the list as it is. -/
theorem listed_next {thread : ℕ} {leaves : Bool} (h : x.next thread = some (x', leaves)) :
    Listed x' ↔ Listed x := by
  cases next_of_next h with
  | suspend hplace | goOn hplace | leave hplace | call hplace | called hplace =>
      exact listed_of_places (by simp [hplace]) (by simp)
  | resume hplace =>
      refine listed_of_places (by simp [hplace]) ?_
      rcases resume_place (x := x) with h | h | h | h <;> simp [h]
  | enter hplace =>
      refine listed_of_places (by simp [hplace]) ?_
      unfold TimerState.enter
      split <;> simp
  | destroy hplace =>
      exact iff_of_false (fun h => h.2 (.inr rfl)) fun h => h.2 (.inl hplace)

/-- A timer whose constructor has not run has not been handed out. -/
theorem returned_of_move (h : x.returned = true → Constructed x) (hmove : Move x x')
    (hreturned : x'.returned = true) : Constructed x' := by
  by_cases hx : x.returned = true
  · exact (stable_returned ⟨hx, h hx⟩ hmove).2
  · by_cases hplace : x.place = .create
    · cases hmove with
      | construct isDisposed =>
          unfold TimerState.construct
          split <;> simp [Constructed]
      | run h | runSwitched h | remove h => cases hplace.symm.trans h
      | next hnext => cases next_of_next hnext <;> simp_all
      | setCancelled | takeTimer | cancelReturned | fire | osReturn => exact absurd hreturned hx
      | resolve | osResolve => exact absurd ((returned_resolve x _).symm.trans hreturned) hx
    · exact stable_constructed hplace hmove

theorem mutex_resolve (h : x.mutex ≠ none ↔ x.place = .callback) (result : TimerOperationResult) :
    (x.resolve result).mutex ≠ none ↔ (x.resolve result).place = .callback := by
  refine resolve_rec x result ?_ ?_ ?_
  · intro _
    exact h
  · intro _ hplace
    rw [hplace] at h
    simpa using h
  · intro _ _
    exact h

theorem mutex_of_move (h : x.mutex ≠ none ↔ x.place = .callback) (hmove : Move x x') :
    x'.mutex ≠ none ↔ x'.place = .callback := by
  cases hmove with
  | construct isDisposed hplace =>
      unfold TimerState.construct
      split <;> simpa [hplace] using h
  | run hplace | runSwitched hplace | remove hplace => simpa [hplace] using h
  | next hnext =>
      cases next_of_next hnext with
      | suspend hplace | goOn hplace | call hplace | called hplace | destroy hplace =>
          simpa [hplace] using h
      | leave hplace => simp
      | resume hplace =>
          rw [hplace] at h
          unfold TimerState.resume
          split
          · simp only [TimerState.releaseRef]
            split <;> simpa using h
          · simpa using h
          · simpa using h
      | enter hplace hmutex =>
          unfold TimerState.enter
          split
          · simp [hmutex]
          · simp
  | setCancelled | takeTimer | cancelReturned | fire | osReturn => exact h
  | resolve => exact mutex_resolve h _
  | osResolve => exact mutex_resolve (x := x) h .success

theorem stable_sane : Stable Sane := fun h hmove =>
  ⟨returned_of_move h.1 hmove, mutex_of_move h.2 hmove⟩

theorem sane_step (hs : Inv s) (hev : Evolves s s') (timer : ℕ) (x' : TimerState)
    (hx' : s'.timers[timer]? = some x') : Sane x' := by
  cases hx : s.timers[timer]? with
  | none =>
      obtain ⟨kind, rfl⟩ := hev.fresh timer x' hx' hx
      exact ⟨fun h => (by cases h), by simp⟩
  | some x =>
      obtain ⟨y, hy, hsame⟩ := hev.move timer x hx
      obtain rfl := Option.some.inj (hx'.symm.trans hy)
      rcases hsame with rfl | hmove
      · exact hs.sane timer x' hx
      · exact stable_sane (hs.sane timer x hx) hmove

theorem knows_of_threads (hs : Inv s) (hev : Evolves s s') (h : s'.threads = s.threads) :
    ∀ stack ∈ s'.threads, ∀ frame ∈ stack, Knows s' frame := by
  intro stack hstack frame hframe
  rw [h] at hstack
  exact (hs.knows stack hstack frame hframe).step hev

/-- A thread has left its topmost call, or come into a new one. -/
theorem knows_of_set (hs : Inv s) (hev : Evolves s s') {thread : ℕ} {old new : List Frame}
    (hold : s.threads[thread]? = some old) (h : s'.threads = s.threads.set thread new)
    (hnew : ∀ frame ∈ new, frame ∈ old ∨ Knows s' frame) :
    ∀ stack ∈ s'.threads, ∀ frame ∈ stack, Knows s' frame := by
  rw [h]
  refine forall_mem_set (fun stack hstack frame hframe => ?_) fun frame hframe => ?_
  · exact (hs.knows stack hstack frame hframe).step hev
  · rcases hnew frame hframe with hmem | hknows
    · exact (hs.knows old (List.mem_of_getElem? hold) frame hmem).step hev
    · exact hknows

theorem knows_push {frame top : Frame} {stack : List Frame} (h : frame ∈ top :: stack)
    (htop : Knows s' top) : frame ∈ stack ∨ Knows s' frame := by
  rcases List.mem_cons.1 h with rfl | hmem
  · exact .inr htop
  · exact .inl hmem

/-- The topmost call has moved on. -/
theorem knows_replace {frame top old : Frame} {stack : List Frame} (h : frame ∈ top :: stack)
    (htop : Knows s' top) : frame ∈ old :: stack ∨ Knows s' frame := by
  rcases List.mem_cons.1 h with rfl | hmem
  · exact .inr htop
  · exact .inl (List.mem_cons_of_mem _ hmem)

/-- The parts of the invariant that are about the list, where that stays as it is. -/
theorem Inv.of_list (hs : Inv s) (hev : Evolves s s')
    (hknows : ∀ stack ∈ s'.threads, ∀ frame ∈ stack, Knows s' frame)
    (hlist : s'.timerStateList = s.timerStateList)
    (hlisted : ∀ timer, Has s' timer Listed ↔ Has s timer Listed) : Inv s' where
  knows := hknows
  nodup := hlist ▸ hs.nodup
  listed timer := by rw [hlist, hs.listed, hlisted]
  sane := sane_step hs hev

theorem inv_unlock (hs : Inv s) {thread : ℕ} {client : Option ℕ} {frame : Frame}
    {stack : List Frame} (hstack : s.threads[thread]? = some (frame :: stack))
    (hev : Evolves s (s.unlock thread client stack)) : Inv (s.unlock thread client stack) := by
  have htail : ∀ other ∈ stack, other ∈ frame :: stack := fun _ => List.mem_cons_of_mem _
  rcases unlock_cases s thread client stack with ⟨timer, x, -, hx, hunlock⟩ | hunlock
  · rw [hunlock] at hev ⊢
    refine hs.of_list hev (knows_of_set hs hev hstack rfl fun other h => .inl (htail other h)) rfl
      (has_iff_of_set hx rfl (listed_of_place rfl))
  · rw [hunlock] at hev ⊢
    exact hs.of_list hev (knows_of_set hs hev hstack rfl fun other h => .inl (htail other h)) rfl
      (has_iff_of_timers rfl)

/-- The constructor appends its timer to the list. -/
theorem listed_create (hs : Inv s) (hx : s.timers[timer]? = some x)
    (hplace : x.place = .create) :
    (s.create timer x).timerStateList.Nodup ∧
      ∀ other, other ∈ (s.create timer x).timerStateList ↔
        Has (s.create timer x) other Listed := by
  have hnew : ¬ Has s timer Listed := fun h => (h.of_getElem? hx).1 hplace
  have hlisted : Listed (x.construct s.isDisposed) := by
    unfold TimerState.construct
    split <;> simp [Listed, Constructed, Removed]
  refine ⟨List.nodup_append.2 ⟨hs.nodup, by simp, fun t ht u hu => ?_⟩, fun other => ?_⟩
  · rw [List.mem_singleton.1 hu]
    rintro rfl
    exact hnew ((hs.listed _).1 ht)
  · refine (List.mem_append.trans (or_congr (hs.listed other) List.mem_singleton)).trans ?_
    by_cases heq : other = timer
    · subst heq
      exact iff_of_true (.inr rfl) ((has_set_self hx rfl).2 hlisted)
    · rw [or_iff_left heq]
      exact (has_set_ne rfl (Ne.symm heq)).symm

/-- The destructor takes it out. -/
theorem listed_remove (hs : Inv s) (hx : s.timers[timer]? = some x) :
    (s.remove timer x).timerStateList.Nodup ∧
      ∀ other, other ∈ (s.remove timer x).timerStateList ↔
        Has (s.remove timer x) other Listed := by
  refine ⟨hs.nodup.erase _, fun other => ?_⟩
  refine (hs.nodup.mem_erase_iff.trans (and_congr_right' (hs.listed other))).trans ?_
  by_cases heq : other = timer
  · subst heq
    refine iff_of_false (fun h => h.1 rfl) fun h => ?_
    exact ((has_set_self hx rfl).1 h).2 (.inl rfl)
  · rw [and_iff_right heq]
    exact (has_set_ne rfl (Ne.symm heq)).symm

theorem Inv.step (hs : Inv s) (h : Stepped s a s') : Inv s' := by
  have hev := hs.evolves h
  cases h with
  | invokeAfter kind hstack =>
      refine hs.of_list hev (knows_of_set hs hev hstack rfl fun frame hframe => ?_) rfl
        (has_iff_of_concat rfl fun h => h.1 rfl)
      refine knows_push hframe ?_
      simp [Knows, Win32TimerManager.setStack]
  | cancelInvokeAfter hstack hcall hx hreturned =>
      refine hs.of_list hev (knows_of_set hs hev hstack rfl fun frame hframe => ?_) rfl
        (has_iff_of_timers rfl)
      exact knows_push hframe ⟨_, hx, hreturned, (hs.sane _ _ hx).1 hreturned⟩
  | disposeAgain => exact hs
  | dispose hstack =>
      refine hs.of_list hev (knows_of_set hs hev hstack rfl fun frame hframe => ?_) rfl
        (has_iff_of_timers rfl)
      exact knows_push hframe trivial
  | run hstack hx hplace | runSwitched hstack hx hplace =>
      refine hs.of_list hev (knows_of_set hs hev hstack rfl fun frame hframe => ?_) rfl
        (has_iff_of_set hx rfl (listed_of_places (by simp [hplace]) (by simp)))
      refine knows_push hframe ?_
      simpa [Knows, Win32TimerManager.setStack, Win32TimerManager.setTimer] using
        (List.getElem?_eq_some_iff.1 hx).1
  | @create thread timer x stack hstack hx hplace hmutex =>
      have hknows := knows_of_set hs hev hstack rfl fun frame hframe => .inl hframe
      obtain ⟨hnodup, hlisted⟩ := listed_create hs hx hplace
      exact ⟨hknows, hnodup, hlisted, sane_step hs hev⟩
  | @remove thread timer x stack hstack hx hplace hmutex =>
      have hknows := knows_of_set hs hev hstack rfl fun frame hframe => .inl hframe
      obtain ⟨hnodup, hlisted⟩ := listed_remove hs hx
      exact ⟨hknows, hnodup, hlisted, sane_step hs hev⟩
  | next hstack hx hnext =>
      refine hs.of_list hev (knows_of_set hs hev hstack rfl fun frame hframe => ?_) rfl
        (has_iff_of_set hx rfl (listed_next hnext))
      split at hframe
      · exact .inl (List.mem_cons_of_mem _ hframe)
      · exact .inl hframe
  | lockCancel hstack hmutex =>
      refine hs.of_list hev (knows_of_set hs hev hstack rfl fun frame hframe => ?_) rfl
        (has_iff_of_timers rfl)
      exact knows_replace hframe (hs.knows_top hstack)
  | found hstack hmem =>
      refine hs.of_list hev (knows_of_set hs hev hstack rfl fun frame hframe => ?_) rfl
        (has_iff_of_timers rfl)
      obtain ⟨x, hx, hreturned⟩ := hs.knows_top hstack
      exact knows_replace hframe (.inl ⟨rfl, x, hx, hreturned.2⟩)
  | notFound hstack hmem => exact inv_unlock hs hstack hev
  | lockDispose hstack hmutex =>
      refine hs.of_list hev (knows_of_set hs hev hstack rfl fun frame hframe => ?_) rfl
        (has_iff_of_timers rfl)
      refine knows_replace hframe fun timer hmem => ?_
      obtain ⟨x, hx, hlisted⟩ := (hs.listed timer).1 hmem
      exact ⟨x, hx, hlisted.1⟩
  | unlock hstack => exact inv_unlock hs hstack hev
  | @loop thread timer client timers stack hstack =>
      refine hs.of_list hev (knows_of_set hs hev hstack rfl fun frame hframe => ?_) rfl
        (has_iff_of_timers rfl)
      refine knows_replace hframe ?_
      have hknows := hs.knows_top hstack
      cases client with
      | none => exact hknows
      | some client =>
          rcases hknows with ⟨htimers, hconstructed⟩ | ⟨htimers, -⟩
          · obtain ⟨rfl, rfl⟩ := List.cons_eq_cons.1 htimers
            exact ⟨rfl, rfl, hconstructed⟩
          · cases htimers
  | @lockState thread timer x client timers stack hstack hx hmutex =>
      refine hs.of_list hev (knows_of_set hs hev hstack rfl fun frame hframe => ?_) rfl
        (has_iff_of_set hx rfl (listed_of_place rfl))
      refine knows_replace hframe ?_
      have hknows := hs.knows_top hstack
      have hcallback : x.place ≠ .callback := fun h => (hs.sane _ _ hx).2.2 h hmutex
      have hconstructed := (hs.constructed_of_lockState hstack).of_getElem? hx
      have hnew := getElem?_replaced hx (x.setCancelled client.isSome)
      cases client with
      | none =>
          exact ⟨⟨_, hnew, rfl, hcallback, hconstructed, fun h => by cases h⟩, fun other hother =>
            (hknows other (List.mem_cons_of_mem _ hother)).step stable_constructed hev⟩
      | some client =>
          exact ⟨hknows.1, hknows.2.1, _, hnew, rfl, hcallback, hconstructed,
            fun _ => Bool.or_true _⟩
  | @resolve thread timer x client timers stack hstack hx =>
      refine hs.of_list hev (knows_of_set hs hev hstack rfl fun frame hframe => ?_) rfl
        (has_iff_of_set hx rfl (listed_resolve x _))
      refine knows_replace hframe ?_
      have hknows := (hs.knows_top hstack).step hev
      have hnew := getElem?_replaced hx
        (x.resolve (if client.isSome then .cancelled else .shutingDown))
      cases client with
      | none => exact ⟨hknows.1, ⟨_, hnew, promise_resolve x _⟩, hknows.2⟩
      | some client => exact ⟨hknows.1, hknows.2.1, hknows.2.2, _, hnew, promise_resolve x _⟩
  | @deleteTimer thread timer x client timers stack hstack hx hwaits =>
      refine hs.of_list hev (knows_of_set hs hev hstack rfl fun frame hframe => ?_) rfl
        (has_iff_of_set hx rfl (listed_of_place rfl))
      refine knows_replace hframe ?_
      have hknows := (hs.knows_top hstack).step hev
      cases client with
      | none => exact hknows.2.2
      | some client =>
          obtain ⟨rfl, htimers, hstopped, -⟩ := hknows
          exact .inr ⟨htimers, hstopped⟩
  | fire hx hos | osReturn hx hos =>
      exact hs.of_list hev (knows_of_threads hs hev rfl) rfl
        (has_iff_of_set hx rfl (listed_of_place rfl))
  | osResolve hx hos =>
      refine hs.of_list hev (knows_of_threads hs hev rfl) rfl (has_iff_of_set hx rfl ?_)
      exact (listed_of_place rfl).trans (listed_resolve _ .success)

/-! ### Runs -/

/-- A manager with threads that run nothing yet. -/
def start (threads : ℕ) : Win32TimerManager := { threads := List.replicate threads [] }

theorem inv_start (threads : ℕ) : Inv (start threads) where
  knows stack hstack frame hframe := by
    rw [List.eq_of_mem_replicate hstack] at hframe
    cases hframe
  nodup := List.nodup_nil
  listed timer := by
    refine iff_of_false (List.not_mem_nil) ?_
    rintro ⟨x, hx, -⟩
    cases hx
  sane timer x hx := by cases hx

theorem inv_of_steps (hs : Inv s) (h : Steps step Free s s') : Inv s' :=
  h.invariant (fun hs _ h => hs.step (stepped_of_step h)) hs

/-- **What every move preserves holds of every timer.** -/
theorem timer_invariant (hnew : ∀ kind, P (.ofKind kind)) (hstable : Stable P) {threads : ℕ}
    (h : Steps Timers.step Free (start threads) s) (hx : s.timers[timer]? = some x) : P x := by
  suffices hall : Inv s ∧ ∀ (timer : ℕ) x, s.timers[timer]? = some x → P x from hall.2 timer x hx
  refine h.invariant (P := fun s => Inv s ∧ ∀ (timer : ℕ) x, s.timers[timer]? = some x → P x) ?_
    ⟨inv_start threads, fun _ _ h => by cases h⟩
  rintro s a s' ⟨hs, hP⟩ - h
  have hev := hs.evolves (stepped_of_step h)
  refine ⟨hs.step (stepped_of_step h), fun timer x' hx' => ?_⟩
  cases hx : s.timers[timer]? with
  | none =>
      obtain ⟨kind, rfl⟩ := hev.fresh timer x' hx' hx
      exact hnew kind
  | some x =>
      obtain ⟨y, hy, hsame⟩ := hev.move timer x hx
      obtain rfl := Option.some.inj (hx'.symm.trans hy)
      rcases hsame with rfl | hmove
      · exact hP timer x' hx
      · exact hstable (hP timer x hx) hmove

/-- What every move preserves stays so of a timer. -/
theorem Has.steps (hP : Has s timer P) (hstable : Stable P) (hs : Inv s)
    (h : Steps Timers.step Free s s') : Has s' timer P := by
  refine (h.invariant (P := fun s => Inv s ∧ Has s timer P) ?_ ⟨hs, hP⟩).2
  rintro s a s' ⟨hs, hP⟩ - h
  exact ⟨hs.step (stepped_of_step h), hP.step hstable (hs.evolves (stepped_of_step h))⟩

end Steps

end MyEngine.Async.Timers
