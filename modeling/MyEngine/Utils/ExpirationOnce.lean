import MyEngine.Utils.ExpirationPhase

/-!
# Utils — ExpirationOnce

When every subscription of an `ExpirationState` is notified once.

* `Delivers.work`: a step keeps the delivery prepared, where the call that installs is `attended`.
* `notified_of_attended`: then everybody is notified once the expiration is expired.
-/

namespace MyEngine.Utils.Expiration

open Runs OneShot OneShot.Notifier Threading

section Work

variable {c : Config} {s s' : State} {thread : Nat} {frame : Frame} {rest : List Frame}

namespace Delivers

/-- `install`, where the time is not over before the timer is there. -/
theorem install (h : Delivers c s)
    (hlocks : Locks ((installTimer c s).setStack thread (.link :: rest)))
    (hlinked : State.Linked ((installTimer c s).setStack thread (.link :: rest)))
    (hstack : s.threads[thread]? = some (.install :: rest))
    (hattended : (s.timer.isSome || !c.timeIsOver s.elapsed) = true) :
    Delivers c ((installTimer c s).setStack thread (.link :: rest)) := by
  have hphase := h.phase_of_installs hstack rfl
  have hnotify : ∀ f ∈ [Frame.install], f ≠ .notify ∧ f ≠ .invoke := by simp
  have hnotify' : ∀ f ∈ [Frame.link], f ≠ .notify ∧ f ≠ .invoke := by simp
  have htesting : ∀ {s' : State}, s'.threads = s.threads.set thread ([.link] ++ rest) →
      s'.Has (.testTime .first) → s.Has (.testTime .first) := by
    intro s' hthreads ht
    exact has_of_next hstack hthreads ht (by simp)
  rcases installTimer_cases c s with ⟨heq, hset⟩ | ⟨timeout, htimeout, hnone, due, hdue, heq⟩
  · have hset' : TimerSet c s := by
      rcases Bool.or_eq_true_iff.1 hattended with htimer | htime
      · exact fun _ => htimer
      · exact hset (by simpa using htime)
    rw [heq] at hlocks hlinked ⊢
    refine h.carry hlocks hlinked [.install] [.link] hstack rfl hnotify hnotify' rfl rfl h.due
      (fun _ ht _ => ht) rfl .inl (fun ht hi => h.testing (htesting rfl ht) hi) ?_
    rcases hphase with ⟨-, hc⟩ | ⟨-, hl⟩
    · exact .timed .link rfl (has_of_top hstack rfl List.mem_cons_self) hset' hc
    · exact .armed hset' hl
  · rw [heq] at hlocks hlinked ⊢
    refine h.carry hlocks hlinked [.install] [.link] hstack rfl hnotify hnotify' rfl rfl ?_ ?_ rfl
      .inl (fun ht hi => h.testing (htesting rfl ht) hi) ?_
    · intro timer ht
      obtain rfl := Option.some.inj ht
      exact ⟨timeout, htimeout, hdue⟩
    · intro timer ht hf
      obtain rfl := Option.some.inj ht
      cases hf
    · rcases hphase with ⟨-, hc⟩ | ⟨-, hl⟩
      · exact .timed .link rfl (has_of_top hstack rfl List.mem_cons_self) (fun _ => rfl) hc
      · exact .armed (fun _ => rfl) hl

/-- `link` that goes straight to the end of `Subscribe`. -/
theorem link (h : Delivers c s) (hlocks : Locks s') (hlinked : s'.Linked)
    (hstack : s.threads[thread]? = some (.link :: rest))
    (hthreads : s'.threads = s.threads.set thread (.leave :: rest))
    (helapsed : s'.elapsed = s.elapsed) (hinvoked : s'.callbacksAreInvoked = s.callbacksAreInvoked)
    (htimer : s'.timer = s.timer) (hcancelled : s'.isCancelled = s.isCancelled)
    (hlisted : s'.listed = true → s.listed = true ∨ c.cancellation = true ∧ s.isCancelled = false)
    (harmed : c.cancellation = true →
      s.cancellationSubscription = false ∨ s.listed = true → s'.listed = true) :
    Delivers c s' := by
  obtain ⟨ht, hlink⟩ := h.phase_of_links hstack rfl
  refine h.carry hlocks hlinked [.link] [.leave] hstack hthreads (by simp) (by simp) helapsed
    hinvoked (htimer ▸ h.due) (fun timer ht _ => htimer ▸ ht) hcancelled hlisted
    (fun ht hi => h.testing ?_ hi) (.armed ?_ fun hc => harmed hc (hlink.imp_right fun hl => hl hc))
  · exact has_of_next hstack hthreads ht (by simp)
  · rwa [TimerSet, htimer]

/-- `link` that is called back, because the cancellation is cancelled. -/
theorem back (h : Delivers c s) (hlocks : Locks s') (hlinked : s'.Linked)
    (hstack : s.threads[thread]? = some (.link :: rest))
    (hthreads : s'.threads = s.threads.set thread (.invoke :: .linked :: rest))
    (hc : c.cancellation = true) (hcancelled : s.isCancelled = true)
    (hsubscription : s.cancellationSubscription = false)
    (helapsed : s'.elapsed = s.elapsed) (hinvoked : s'.callbacksAreInvoked = s.callbacksAreInvoked)
    (htimer : s'.timer = s.timer) (hcancelled' : s'.isCancelled = s.isCancelled)
    (hsubscription' : s'.cancellationSubscription = s.cancellationSubscription) :
    Delivers c s' := by
  have hnew : ∀ {other}, other ≠ .invoke → other ≠ .linked → s'.Has other → s.Has other := by
    intro other hne hne' hhas
    refine has_of_has (show _ = some ([.link] ++ rest) from hstack)
      (show _ = s.threads.set thread ([.invoke, .linked] ++ rest) from hthreads) hhas ?_
    simp [hne, hne']
  have hinvoke : s'.Has .invoke := has_of_top hstack hthreads List.mem_cons_self
  have hexpired : s'.isExpired c = true := by
    rw [State.isExpired, hc, hcancelled', hcancelled]
    rfl
  obtain ⟨ht, -⟩ := h.phase_of_links hstack rfl
  refine ⟨hlocks, hlinked, fun _ => hc, fun _ => hcancelled'.trans hcancelled, fun _ => hexpired,
    fun _ => hexpired, fun ht hi => ?_, htimer ▸ h.due, ?_, fun _ _ _ => .inr hinvoke,
    fun _ _ => .inr (.inr hinvoke)⟩
  · rw [helapsed]
    exact h.testing (hnew (by simp) (by simp) ht) (hinvoked ▸ hi)
  · refine .timed .linked rfl (has_of_top hstack hthreads (List.mem_cons_of_mem _
      List.mem_cons_self)) ?_ (hsubscription'.trans hsubscription)
    rwa [TimerSet, htimer]

/-- The call of `cancel` that finds the flag unset. -/
theorem cancel (h : Delivers c s) (hlocks : Locks s') (hlinked : s'.Linked)
    (hstack : s.threads[thread]? = some (.cancel :: rest))
    (hs : s' = State.setStack { s with isCancelled := true } thread (.notify :: rest)) :
    Delivers c s' := by
  have hthreads : s'.threads = s.threads.set thread ([.notify] ++ rest) := hs ▸ rfl
  have hold : s.threads[thread]? = some ([.cancel] ++ rest) := hstack
  have hkept : ∀ {other}, other ≠ .cancel → s.Has other → s'.Has other := by
    intro other hne hhas
    exact has_kept hold hthreads hhas (by simpa using hne)
  have hnew : ∀ {other}, other ≠ .notify → s'.Has other → s.Has other := by
    intro other hne hhas
    exact has_of_has hold hthreads hhas (by simpa using hne)
  have hexpired : s.isExpired c = true → s'.isExpired c = true := by
    intro hexpired
    rw [State.isExpired] at hexpired ⊢
    rw [hs]
    rcases Bool.or_eq_true_iff.1 hexpired with hc | ht
    · have hboth := Bool.and_eq_true_iff.2 ⟨(Bool.and_eq_true_iff.1 hc).1, rfl⟩
      exact Bool.or_eq_true_iff.2 (.inl hboth)
    · exact Bool.or_eq_true_iff.2 (.inr ht)
  refine ⟨hlocks, hlinked, hs ▸ h.listing, fun _ => hs ▸ rfl,
    fun hi => hexpired (h.invoking (hnew (by simp) hi)), fun hi => hexpired (h.invoked ?_),
    fun ht hi => ?_, hs ▸ h.due, ?_, fun timer ht hf => ?_, fun _ _ => .inr (.inl ?_)⟩
  · rw [hs] at hi
    exact hi
  · rw [hs] at hi ⊢
    exact h.testing (hnew (by simp) ht) hi
  · exact h.phase.carry [.cancel] [.notify] hold hthreads (List.forall_mem_singleton.2 ⟨rfl, rfl⟩)
      (List.forall_mem_singleton.2 ⟨rfl, rfl⟩) (hs ▸ id) (hs ▸ rfl) (hs ▸ rfl) (hs ▸ rfl)
  · rw [hs] at ht ⊢
    exact (h.fired timer ht hf).imp_right (hs ▸ hkept (by simp))
  · exact has_of_top hstack hthreads List.mem_cons_self

/-- The loop of `cancel` comes to the expiration, or has nothing to come to. -/
theorem notify (h : Delivers c s) (hlocks : Locks s') (hlinked : s'.Linked)
    (hstack : s.threads[thread]? = some (.notify :: rest))
    (hs : s' = s.setStack thread (if s.listed then .invoke :: rest else rest)) :
    Delivers c s' := by
  have hcancelled := h.notifying (has_top hstack)
  have hthreads : s'.threads =
      s.threads.set thread ((if s.listed then [.invoke] else []) ++ rest) := by
    rw [hs]
    split <;> rfl
  have hold : s.threads[thread]? = some ([.notify] ++ rest) := hstack
  have htop : ∀ {other : Frame}, other ≠ .invoke →
      other ∉ if s.listed then [Frame.invoke] else [] := by
    intro other hne
    split
    · simpa using hne
    · exact List.not_mem_nil
  have hkept : ∀ {other}, other ≠ .notify → s.Has other → s'.Has other := by
    intro other hne hhas
    exact has_kept hold hthreads hhas (by simpa using hne)
  have hnew : ∀ {other}, other ≠ .invoke → s'.Has other → s.Has other :=
    fun hne hhas => has_of_has hold hthreads hhas (htop hne)
  have hexpired : s'.isExpired c = s.isExpired c := hs ▸ rfl
  refine ⟨hlocks, hlinked, hs ▸ h.listing, fun _ => hs ▸ hcancelled, fun hi => ?_, fun hi => ?_,
    fun ht hi => ?_, hs ▸ h.due, ?_, fun timer ht hf => ?_, fun hl _ => .inr (.inr ?_)⟩
  · rw [hexpired]
    cases hlisted : s.listed with
    | true =>
        rw [State.isExpired, h.listing hlisted, hcancelled]
        rfl
    | false =>
        rw [hlisted] at hthreads
        exact h.invoking (has_of_has hold hthreads hi List.not_mem_nil)
  · rw [hexpired]
    rw [hs] at hi
    exact h.invoked hi
  · rw [hs] at hi ⊢
    exact h.testing (hnew (by simp) ht) hi
  · refine h.phase.carry [.notify] _ hold hthreads (List.forall_mem_singleton.2 ⟨rfl, rfl⟩) ?_
      (hs ▸ id) (hs ▸ rfl) (hs ▸ rfl) (hs ▸ rfl)
    split
    · exact List.forall_mem_singleton.2 ⟨rfl, rfl⟩
    · exact List.forall_mem_nil _
  · rw [hs] at ht
    have hinvoke : s.Has .invoke → s'.Has .invoke := hkept (by simp)
    rw [hs] at hinvoke ⊢
    exact (h.fired timer ht hf).imp_right hinvoke
  · rw [hs] at hl
    have hlisted : s.listed = true := hl
    refine has_of_top hstack hthreads ?_
    rw [hlisted]
    exact List.mem_cons_self

/-- `invokeCallbacks` takes and leaves `m_mutex`. -/
theorem invoke (h : Delivers c s) (hlocks : Locks s') (hlinked : s'.Linked)
    (hstack : s.threads[thread]? = some (.invoke :: rest))
    (hfree : s.mutex.threadOwner = none) (top : List Frame) (htop : top.any Frame.awaited = false)
    (htests : top.any Frame.tests = false)
    (hthreads : s'.threads = s.threads.set thread (top ++ rest)) (helapsed : s'.elapsed = s.elapsed)
    (hinvoked : s'.callbacksAreInvoked = true) (htimer : s'.timer = s.timer)
    (hcancelled : s'.isCancelled = s.isCancelled) (hentries : s'.subscriptions = s.subscriptions)
    (hcancellation : s'.cancellationSubscription = s.cancellationSubscription)
    (hlisted : s'.listed = s.listed) : Delivers c s' := by
  have hold : s.threads[thread]? = some ([.invoke] ++ rest) := hstack
  have hplain : ∀ f ∈ top, f.awaited = false :=
    fun f hf => eq_false_of_ne_true (List.any_eq_false.1 htop f hf)
  have hexpired : s'.isExpired c = true := by
    rw [State.isExpired, hcancelled, helapsed]
    exact h.invoking (has_top hstack)
  refine ⟨hlocks, hlinked, hlisted ▸ h.listing, fun hn => ?_, fun _ => hexpired, fun _ => hexpired,
    fun ht _ => ?_, htimer ▸ h.due, ?_, fun _ _ _ => .inl hinvoked, fun _ _ => .inl hinvoked⟩
  · rw [hcancelled]
    exact h.notifying (has_of_has hold hthreads hn fun hmem =>
      (Frame.of_not_awaited (hplain _ hmem)).1.1 rfl)
  · -- no `Subscribe` is under way while the mutex is free
    obtain ⟨stack, hmem, htesting⟩ := has_of_has hold hthreads ht fun hmem =>
      List.any_eq_false.1 htests _ hmem rfl
    obtain ⟨i, hi⟩ := List.getElem?_of_mem hmem
    have howner := (h.locks.mutex i).2 ⟨stack, hi, List.any_eq_true.2 ⟨_, htesting, rfl⟩⟩
    rw [hfree] at howner
    cases howner
  · exact h.phase.carry [.invoke] top hold hthreads (List.forall_mem_singleton.2 ⟨rfl, rfl⟩)
      (fun f hf => (Frame.of_not_awaited (hplain f hf)).2) (fun hnil => hentries.trans hnil) htimer
      hcancellation hlisted

theorem fire (h : Delivers c s) (hlocks : Locks s') (hlinked : s'.Linked) {timer : Timer}
    (htimer : s.timer = some timer) (hdue : timer.due ≤ s.elapsed)
    (hstack : s.threads[thread]? = some [])
    (hs : s' = State.setStack { s with timer := some { timer with fired := true } } thread
      [.invoke]) : Delivers c s' := by
  have hthreads : s'.threads = s.threads.set thread ([.invoke] ++ []) := hs ▸ rfl
  have hold : s.threads[thread]? = some ([] ++ []) := hstack
  have hkept : ∀ {other}, s.Has other → s'.Has other :=
    fun hhas => has_kept hold hthreads hhas List.not_mem_nil
  have hnew : ∀ {other}, other ≠ .invoke → s'.Has other → s.Has other := by
    intro other hne hhas
    exact has_of_has hold hthreads hhas (by simpa using hne)
  have hinvoke : s'.Has .invoke := has_of_top hstack hthreads List.mem_cons_self
  obtain ⟨timeout, htimeout, hle⟩ := h.due timer htimer
  have hover : c.timeIsOver s.elapsed = true := by
    rw [Config.timeIsOver, htimeout]
    dsimp only
    rw [decide_eq_true (Int.le_trans hle hdue), Bool.or_true]
  have hexpired : s'.isExpired c = true := by
    rw [State.isExpired, hs]
    dsimp only [State.setStack]
    rw [hover, Bool.or_true]
  have hset : TimerSet c s → TimerSet c s' := fun _ _ => hs ▸ rfl
  refine ⟨hlocks, hlinked, hs ▸ h.listing, fun hn => ?_, fun _ => hexpired, fun _ => hexpired,
    fun _ _ => ?_, ?_, ?_, fun _ _ _ => .inr hinvoke, fun _ _ => .inr (.inr hinvoke)⟩
  · rw [hs]
    exact h.notifying (hnew (by simp) hn)
  · rw [hs]
    exact hover
  · rw [hs]
    intro timer' ht
    obtain rfl := Option.some.inj ht
    exact ⟨timeout, htimeout, hle⟩
  · cases h.phase with
    | fresh _ ht | entered _ _ _ ht => exact absurd (htimer.symm.trans ht) (Option.some_ne_none _)
    | timed other hframe hthread ht hc =>
        exact .timed other hframe (hkept hthread) (hset ht) (hs ▸ hc)
    | armed ht hl => exact .armed (hset ht) (hs ▸ hl)

/-- Time passes, and what is expired stays so. -/
theorem tick (h : Delivers c s) (ticks : Nat) :
    Delivers c { s with elapsed := s.elapsed + ticks } := by
  have hover : c.timeIsOver s.elapsed = true → c.timeIsOver (s.elapsed + ticks) = true := by
    intro hover
    rw [Config.timeIsOver] at hover ⊢
    split at hover
    · cases hover
    · simp only [Bool.or_eq_true, decide_eq_true_eq] at hover ⊢
      exact hover.imp_right fun hle => by omega
  have hexpired : s.isExpired c = true →
      State.isExpired { s with elapsed := s.elapsed + ticks } c = true := by
    intro hexpired
    rw [State.isExpired] at hexpired ⊢
    rcases Bool.or_eq_true_iff.1 hexpired with hc | ht
    · exact Bool.or_eq_true_iff.2 (.inl hc)
    · exact Bool.or_eq_true_iff.2 (.inr (hover ht))
  have hphase : Phase c { s with elapsed := s.elapsed + ticks } := by
    cases h.phase with
    | fresh hnil ht hc hnone => exact .fresh hnil ht hc hnone
    | entered other hframe hthread ht hc => exact .entered other hframe hthread ht hc
    | timed other hframe hthread ht hc => exact .timed other hframe hthread ht hc
    | armed ht hl => exact .armed ht hl
  exact ⟨⟨h.locks.shape, h.locks.mutex, h.locks.entry⟩, h.linked, h.listing, h.notifying,
    fun hi => hexpired (h.invoking hi), fun hi => hexpired (h.invoked hi),
    fun ht hi => hover (h.testing ht hi), h.due, hphase, h.fired, h.cancelled⟩

/-- `isExpired` holds. -/
theorem expired {test : Test} (h : Delivers c s)
    (hlocks : Locks (Expiration.expired s thread rest test))
    (hlinked : (Expiration.expired s thread rest test).Linked)
    (hstack : s.threads[thread]? = some (frame :: rest))
    (hframe : frame = .testCancelled test ∨ frame = .testTime test)
    (hattended : test = .second → s.installed = true) :
    Delivers c (Expiration.expired s thread rest test) := by
  cases test with
  | first =>
      have htop : [frame].any Frame.awaited = false := by
        rcases hframe with rfl | rfl <;> rfl
      exact h.plain hlocks hlinked [frame] [.late] hstack rfl htop rfl rfl id rfl rfl rfl rfl rfl
        rfl
  | second =>
      have hinstalls : frame.installs = true := by
        rcases hframe with rfl | rfl <;> rfl
      have htop : ∀ f ∈ [frame], f ≠ .notify ∧ f ≠ .invoke := by
        rcases hframe with rfl | rfl <;> simp
      refine h.carry hlocks hlinked [frame] [.leave] hstack rfl htop
        (by simp) rfl rfl h.due (fun _ ht _ => ht) rfl .inl
        (fun ht hi => h.testing ?_ hi) (h.phase_expired hstack hinstalls (hattended rfl))
      exact has_of_next hstack rfl ht (by simp)

theorem work (h : Delivers c s) (hstack : s.threads[thread]? = some (frame :: rest))
    (hattended : attended c s (.work thread) = true)
    (hs : Worked c s thread rest frame s') : Delivers c s' := by
  have hnew : frame = .testTime .first → c.timeIsOver s.elapsed = false →
      s.callbacksAreInvoked = false := by
    rintro rfl htime
    refine eq_false_of_ne_true fun hi => ?_
    exact absurd (h.testing (has_top hstack) hi) (ne_true_of_eq_false htime)
  have hlocks := h.locks.work hstack hs
  have hlinked := (h.linked.work hstack hnew hs).1
  have hsome : ∀ {index : Nat} {entry : Entry}, s.subscriptions[index]? = some entry →
      s.subscriptions ≠ [] := by
    intro index entry hentry hnil
    rw [hnil] at hentry
    cases hentry
  rw [attended, hstack] at hattended
  cases hs with
  | subscribe =>
      exact h.plain hlocks hlinked [.subscribe] [.testCancelled .first] hstack rfl rfl rfl rfl id
        rfl rfl rfl rfl rfl rfl
  | cancelled test hc hcancelled =>
      refine h.expired hlocks hlinked hstack (.inl rfl) ?_
      rintro rfl
      dsimp only at hattended
      rw [hc, hcancelled] at hattended
      simpa using hattended
  | notCancelled test hcancelled =>
      -- the thread goes on to the clock
      cases test with
      | first =>
          refine h.carry hlocks hlinked [.testCancelled .first] [.testTime .first] hstack rfl
            (by simp) (by simp) rfl rfl h.due (fun _ ht _ => ht) rfl .inl
            (fun _ hi => ?_) ?_
          · have hexpired := h.invoked hi
            rw [State.isExpired, hcancelled] at hexpired
            exact hexpired
          · exact h.phase.carry [.testCancelled .first] [.testTime .first] hstack rfl
              (List.forall_mem_singleton.2 ⟨rfl, rfl⟩) (List.forall_mem_singleton.2 ⟨rfl, rfl⟩) id
              rfl rfl rfl
      | second =>
          refine h.carry hlocks hlinked [.testCancelled .second] [.testTime .second] hstack rfl
            (by simp) (by simp) rfl rfl h.due (fun _ ht _ => ht) rfl .inl
            (fun ht hi => h.testing ?_ hi) (h.phase_next hstack rfl rfl)
          exact has_of_next hstack rfl ht (by simp)
  | timeIsOver test htime =>
      refine h.expired hlocks hlinked hstack (.inr rfl) ?_
      rintro rfl
      dsimp only at hattended
      rw [htime] at hattended
      simpa using hattended
  | timeLeft test =>
      cases test with
      | first =>
          refine h.carry hlocks hlinked [.testTime .first] [.testCancelled .second] hstack rfl
            (by simp) (by simp) rfl rfl h.due (fun _ ht _ => ht) rfl .inl
            (fun ht hi => h.testing ?_ hi) (h.phase_enter hstack)
          exact has_of_next hstack rfl ht (by simp)
      | second =>
          refine h.carry hlocks hlinked [.testTime .second] [.install] hstack rfl
            (by simp) (by simp) rfl rfl h.due (fun _ ht _ => ht) rfl .inl
            (fun ht hi => h.testing ?_ hi) (h.phase_next hstack rfl rfl)
          exact has_of_next hstack rfl ht (by simp)
  | late =>
      exact h.plain hlocks hlinked [.late] [.leave] hstack rfl rfl rfl rfl id rfl rfl rfl rfl rfl
        rfl
  | install => exact h.install hlocks hlinked hstack hattended
  | back hc hsubscription hcancelled =>
      exact h.back hlocks hlinked hstack rfl hc hcancelled hsubscription rfl rfl rfl rfl rfl
  | link hc hcancelled =>
      exact h.link hlocks hlinked hstack rfl rfl rfl rfl rfl (fun _ => .inr ⟨hc, hcancelled⟩)
        fun _ _ => rfl
  | linkedBefore hlink =>
      refine h.link hlocks hlinked hstack rfl rfl rfl rfl rfl .inl fun hc hor => ?_
      refine hor.resolve_left fun hfalse => ?_
      rw [hc, hfalse] at hlink
      cases hlink
  | linked =>
      -- nobody comes back from a `subscribe` that has called back
      cases h.locks.shape_of hstack with
      | base hne => exact absurd rfl hne
  | leave =>
      exact h.plain hlocks hlinked [.leave] [] hstack rfl rfl rfl rfl id rfl rfl rfl rfl rfl rfl
  | @unsubscribe index _ _ hentry =>
      exact h.plain hlocks hlinked [.unsubscribe index] [] hstack rfl rfl rfl rfl
        (absurd · (hsome hentry)) rfl rfl rfl rfl rfl rfl
  | cancelAgain =>
      exact h.plain hlocks hlinked [.cancel] [] hstack rfl rfl rfl rfl id rfl rfl rfl rfl rfl rfl
  | cancel => exact h.cancel hlocks hlinked hstack rfl
  | notify => exact h.notify hlocks hlinked hstack rfl
  | invokeAgain hlock hinvoked =>
      have hnone := congrArg SpinLock.threadOwner (SpinLock.lock_eq_some hlock).1
      exact h.invoke hlocks hlinked hstack hnone [] rfl rfl rfl rfl hinvoked rfl rfl rfl rfl rfl
  | invoke hlock =>
      have hnone := congrArg SpinLock.threadOwner (SpinLock.lock_eq_some hlock).1
      exact h.invoke hlocks hlinked hstack hnone [.walk 0] rfl rfl rfl rfl rfl rfl rfl rfl rfl rfl
  | @finish index =>
      exact h.plain hlocks hlinked [.walk index] [] hstack rfl rfl rfl rfl id rfl rfl rfl rfl
        rfl rfl
  | @call index _ _ hentry =>
      exact h.plain hlocks hlinked [.walk index] [.calling index] hstack rfl rfl rfl rfl
        (absurd · (hsome hentry)) rfl rfl rfl rfl rfl rfl
  | @pass index _ _ hentry =>
      exact h.plain hlocks hlinked [.walk index] [.walk (index + 1)] hstack rfl rfl rfl rfl
        (absurd · (hsome hentry)) rfl rfl rfl rfl rfl rfl
  | @called index _ hentry =>
      exact h.plain hlocks hlinked [.calling index] [.walk (index + 1)] hstack rfl rfl rfl rfl
        (absurd · (hsome hentry)) rfl rfl rfl rfl rfl rfl

/-- A call starts on top of a stack. -/
theorem push (h : Delivers c s) (hlocks : Locks (s.setStack thread (frame :: rest)))
    (hstack : s.threads[thread]? = some rest) (hframe : frame.walks = 0)
    (hpassed : frame.passed = 0) (hawaited : [frame].any Frame.awaited = false)
    (htests : [frame].any Frame.tests = false) :
    Delivers c (s.setStack thread (frame :: rest)) := by
  have hold : s.threads[thread]? = some ([] ++ rest) := hstack
  have hlinked : s.Refines (s.setStack thread (frame :: rest)) :=
    h.linked.quiet [] [frame] hold rfl (by rw [tally_cons, hframe]; rfl)
      (by rw [tally_cons, hpassed]; rfl) rfl rfl rfl rfl rfl
  exact h.plain hlocks hlinked.1 [] [frame] hold rfl rfl hawaited htests id rfl rfl rfl rfl rfl rfl

theorem begin {call : Call} {stack : List Frame} (h : Delivers c s) (hlocks : Locks s')
    (hstack : s.threads[thread]? = some stack) (hs : begin c s thread stack call = some s') :
    Delivers c s' := by
  cases call with
  | subscribe callback =>
      rw [Expiration.begin] at hs
      split at hs
      · obtain rfl := Option.some.inj hs
        exact h.push hlocks hstack rfl rfl rfl rfl
      · exact Option.some.inj hs ▸ h
  | unsubscribe handle =>
      cases handle with
      | none => exact Option.some.inj hs ▸ h
      | some index =>
          rw [Expiration.begin] at hs
          split at hs
          · obtain rfl := Option.some.inj hs
            exact h.push hlocks hstack rfl rfl rfl rfl
          · cases hs
  | cancel =>
      rw [Expiration.begin] at hs
      split at hs
      · obtain rfl := Option.some.inj hs
        exact h.push hlocks hstack rfl rfl rfl rfl
      · cases hs

theorem init (threads : Nat) : Delivers c (initial threads) := by
  have hnone : ∀ {frame}, ¬ (initial threads).Has frame := by
    rintro frame ⟨stack, hstack, hframe⟩
    rw [List.eq_of_mem_replicate hstack] at hframe
    cases hframe
  exact ⟨.init threads, Notifier.Linked.init threads, nofun, fun h => absurd h hnone,
    fun h => absurd h hnone, nofun, fun h => absurd h hnone, nofun,
    .fresh rfl rfl rfl fun frame h => absurd h hnone, nofun, nofun⟩

theorem step {a : Action} (h : Delivers c s) (hattended : attended c s a = true)
    (hs : step c s a = some s') : Delivers c s' := by
  have hlocks := h.locks.step hs
  cases a with
  | call thread call =>
      rw [Expiration.step] at hs
      split at hs
      · cases hs
      · next stack hstack =>
        split at hs
        · exact h.begin hlocks hstack hs
        · cases hs
  | work thread =>
      rw [Expiration.step] at hs
      split at hs
      · next frame rest hstack => exact h.work hstack hattended (worked_of_work hs)
      · cases hs
      · cases hs
  | fire thread =>
      rw [Expiration.step] at hs
      split at hs
      · next timer hstack htimer =>
        split at hs
        · cases hs
        · next hready =>
          obtain rfl := Option.some.inj hs
          obtain ⟨-, hdue⟩ := Bool.or_eq_false_iff.1 (eq_false_of_ne_true hready)
          have hlinked : s.Refines (State.setStack { s with
              timer := some { timer with fired := true } } thread [.invoke]) :=
            h.linked.quiet [] [.invoke] hstack rfl rfl rfl rfl rfl rfl rfl rfl
          exact h.fire hlocks hlinked.1 htimer (Int.not_lt.1 (of_decide_eq_false hdue)) hstack rfl
      · cases hs
  | tick ticks =>
      obtain rfl := Option.some.inj hs
      exact h.tick ticks

end Delivers

end Work

/-! ### Everybody is notified -/

/-- No call is under way, and the timer, if there is one, has fired. -/
structure State.Quiet (s : State) : Prop where
  idle : ∀ stack ∈ s.threads, stack = []
  timer : ∀ timer ∈ s.timer, timer.fired = true

theorem State.Quiet.not_has {s : State} (h : s.Quiet) (frame : Frame) : ¬ s.Has frame := by
  rintro ⟨stack, hstack, hframe⟩
  rw [h.idle stack hstack] at hframe
  cases hframe

namespace Delivers

variable {c : Config} {s : State}

/-- What is installed has come to `invokeCallbacks`, once nobody is under way. -/
theorem invoked_of_armed (h : Delivers c s) (hquiet : s.Quiet) (hexpired : s.isExpired c = true)
    (htimer : TimerSet c s) (hlisted : c.cancellation = true → s.listed = true) :
    s.callbacksAreInvoked = true := by
  rw [State.isExpired] at hexpired
  rcases Bool.or_eq_true_iff.1 hexpired with hcancelled | htime
  · obtain ⟨hc, hcancelled⟩ := Bool.and_eq_true_iff.1 hcancelled
    rcases h.cancelled (hlisted hc) hcancelled with hinvoked | hnotify | hinvoke
    · exact hinvoked
    · exact absurd hnotify (hquiet.not_has _)
    · exact absurd hinvoke (hquiet.not_has _)
  · have hsome : c.timeout.isSome = true := by
      rw [Config.timeIsOver] at htime
      split at htime
      · cases htime
      · next htimeout => rw [htimeout]; rfl
    obtain ⟨timer, ht⟩ := Option.isSome_iff_exists.1 (htimer hsome)
    exact (h.fired timer ht (hquiet.timer timer ht)).resolve_right (hquiet.not_has _)

theorem count_eq_one (h : Delivers c s) (hquiet : s.Quiet) (hexpired : s.isExpired c = true)
    {id : Nat} (hid : id < s.subscribed) (hstays : id ∉ s.unsubscribed) :
    s.invocations.count id = 1 := by
  have hloop := (Notifier.loop_of_idle (w := frameWalk) (n := s.notifier) hquiet.idle).2
  cases h.phase with
  | fresh hnil =>
      -- every subscriber so far has come after the expiration
      refine (h.linked.ledger.reached id hid).resolve_left fun hmem => ?_
      obtain ⟨entry, hentry, -⟩ := List.mem_map.1 hmem
      rw [State.notifier, hnil] at hentry
      cases hentry
  | entered frame _ hhas => exact absurd hhas (hquiet.not_has frame)
  | timed frame _ hhas => exact absurd hhas (hquiet.not_has frame)
  | armed htimer hlisted =>
      exact h.linked.ledger.count_eq_one (h.invoked_of_armed hquiet hexpired htimer hlisted) hloop
        hid hstays

end Delivers

end MyEngine.Utils.Expiration
