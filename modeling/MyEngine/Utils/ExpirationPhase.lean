import MyEngine.Utils.ExpirationLedger

/-!
# Utils — ExpirationPhase

How the delivery of an `ExpirationState` is prepared.

* `attended`: the call of `Subscribe` that installs the timer and the cancellation subscription
  does not find the expiration expired on its way.
* `Phase`: what has been installed, and by whom the rest will be.
* `Delivers`: a passed time and a cancellation lead to `invokeCallbacks`.
-/

namespace MyEngine.Utils.Expiration

open Runs OneShot OneShot.Notifier Threading

/-- The timer runs, where there is a timeout. -/
def TimerSet (c : Config) (s : State) : Prop := c.timeout.isSome = true → s.timer.isSome = true

theorem Config.timePass_lt {c : Config} {timeout : Int} {elapsed : Nat}
    (htimeout : c.timeout = some timeout) : (elapsed : Int) / ticksPerMillisecond < timeout ↔
      c.timeIsOver elapsed = false := by
  rw [timeIsOver, htimeout]
  dsimp only
  rw [Bool.or_eq_false_iff, beq_eq_false_iff_ne, decide_eq_false_iff_not, Int.not_le,
    Int.ediv_lt_iff_lt_mul (by decide)]
  refine ⟨fun hlt => ⟨?_, hlt⟩, fun h => h.2⟩
  rintro rfl
  rw [Int.zero_mul] at hlt
  exact absurd hlt (Int.not_lt.2 (Int.natCast_nonneg elapsed))

/-- The timer is made when there is none, and the time is not over. -/
theorem installTimer_cases (c : Config) (s : State) :
    (installTimer c s = s ∧ (c.timeIsOver s.elapsed = false → TimerSet c s)) ∨
      ∃ timeout, c.timeout = some timeout ∧ s.timer = none ∧
        ∃ due, timeout * ticksPerMillisecond ≤ due ∧
          installTimer c s = { s with timer := some { due := due } } := by
  rw [installTimer]
  split
  · next timeout htimeout hnone =>
    dsimp only
    split
    · refine .inr ⟨timeout, htimeout, hnone, _, ?_, rfl⟩
      have hdiv := Int.ediv_mul_le (s.elapsed : Int) (b := ticksPerMillisecond) (by decide)
      rw [Int.sub_mul]
      omega
    · next hlt =>
      refine .inl ⟨rfl, fun htime => ?_⟩
      exact absurd ((Config.timePass_lt htimeout).2 htime) hlt
  · next hother =>
    refine .inl ⟨rfl, fun _ htimeout => ?_⟩
    obtain ⟨timeout, htimeout⟩ := Option.isSome_iff_exists.1 htimeout
    cases htimer : s.timer with
    | none => exact absurd htimer (hother timeout htimeout)
    | some timer => rfl

/-- Some thread has the call on its stack. -/
def State.Has (s : State) (frame : Frame) : Prop := ∃ stack ∈ s.threads, frame ∈ stack

/-- Some earlier call of `Subscribe` has installed something. -/
def State.installed (s : State) : Bool := s.timer.isSome || s.cancellationSubscription

/-- A call of `Subscribe` that finds nothing installed does not find the expiration expired in
`installSubscriptions`, nor the time over where it creates the timer. -/
def attended (c : Config) (s : State) : Action → Bool
  | .work thread =>
      match s.threads[thread]? with
      | some (.testCancelled .second :: _) => s.installed || !(c.cancellation && s.isCancelled)
      | some (.testTime .second :: _)      => s.installed || !c.timeIsOver s.elapsed
      | some (.install :: _)               => s.timer.isSome || !c.timeIsOver s.elapsed
      | _                                  => true
  | _ => true

/-- The call has entered its subscriber and not come to the timer. -/
def Frame.installs : Frame → Bool
  | testCancelled .second | testTime .second | install => true
  | _                                                  => false

/-- The call is at the cancellation. -/
def Frame.links : Frame → Bool
  | link | linked => true
  | _             => false

/-- Somebody waits for what the call does. -/
def Frame.awaited : Frame → Bool
  | notify | invoke | testCancelled .second | testTime .second | install | link | linked => true
  | _                                                                                    => false

/-- The call is at the second side of the first `isExpired`. -/
def Frame.tests : Frame → Bool
  | testTime .first => true
  | _               => false

theorem Frame.of_not_awaited {frame : Frame} (h : frame.awaited = false) :
    (frame ≠ .notify ∧ frame ≠ .invoke) ∧ frame.installs = false ∧ frame.links = false := by
  cases frame with
  | notify | invoke | install | link | linked => cases h
  | testCancelled test | testTime test =>
      cases test with
      | first => exact ⟨⟨nofun, nofun⟩, rfl, rfl⟩
      | second => cases h
  | _ => exact ⟨⟨nofun, nofun⟩, rfl, rfl⟩

theorem Frame.inside_of_installs {frame : Frame} (h : frame.installs = true) :
    frame.inside = true := by
  cases frame with
  | testCancelled test | testTime test | install => rfl
  | _ => cases h

theorem Frame.inside_of_links {frame : Frame} (h : frame.links = true) : frame.inside = true := by
  cases frame with
  | link | linked => rfl
  | _ => cases h

theorem Frame.not_installs_of_links {frame : Frame} (h : frame.links = true) :
    ¬ frame.installs = true := by
  cases frame with
  | link | linked => nofun
  | _ => cases h

/-- How far the first `Subscribe` has come with what it installs. -/
inductive Phase (c : Config) (s : State) : Prop where
  | fresh (hentries : s.subscriptions = []) (htimer : s.timer = none)
      (hcancellation : s.cancellationSubscription = false)
      (hthreads : ∀ frame, s.Has frame → frame.installs = false ∧ frame.links = false)
  | entered (frame : Frame) (hframe : frame.installs = true) (hthread : s.Has frame)
      (htimer : s.timer = none) (hcancellation : s.cancellationSubscription = false)
  | timed (frame : Frame) (hframe : frame.links = true) (hthread : s.Has frame)
      (htimer : TimerSet c s) (hcancellation : s.cancellationSubscription = false)
  | armed (htimer : TimerSet c s) (hlisted : c.cancellation = true → s.listed = true)

structure Delivers (c : Config) (s : State) : Prop where
  locks : Locks s
  linked : s.Linked
  listing : s.listed = true → c.cancellation = true
  notifying : s.Has .notify → s.isCancelled = true
  invoking : s.Has .invoke → s.isExpired c = true
  invoked : s.callbacksAreInvoked = true → s.isExpired c = true
  testing : s.Has (.testTime .first) → s.callbacksAreInvoked = true → c.timeIsOver s.elapsed = true
  due : ∀ timer ∈ s.timer, ∃ timeout ∈ c.timeout,
    timeout * ticksPerMillisecond ≤ timer.due
  phase : Phase c s
  fired : ∀ timer ∈ s.timer, timer.fired = true → s.callbacksAreInvoked = true ∨ s.Has .invoke
  cancelled : s.listed = true → s.isCancelled = true →
    s.callbacksAreInvoked = true ∨ s.Has .notify ∨ s.Has .invoke

section Has

variable {s s' : State} {thread : Nat} {frame other : Frame} {old top top' rest : List Frame}

theorem has_of_top (hstack : s.threads[thread]? = some old)
    (hthreads : s'.threads = s.threads.set thread top) (h : other ∈ top) : s'.Has other := by
  refine ⟨top, ?_, h⟩
  rw [hthreads]
  exact List.mem_set (List.getElem?_eq_some_iff.1 hstack).1 top

/-- A call is gone only if it was in what has been replaced. -/
theorem has_kept (hstack : s.threads[thread]? = some (top ++ rest))
    (hthreads : s'.threads = s.threads.set thread (top' ++ rest)) (h : s.Has other)
    (hne : other ∉ top) : s'.Has other := by
  obtain ⟨stack, hmem, hother⟩ := h
  rcases eq_or_mem_set hstack hmem (top' ++ rest) with rfl | hmem
  · exact has_of_top hstack hthreads
      (List.mem_append_right _ ((List.mem_append.1 hother).resolve_left hne))
  · exact ⟨stack, hthreads ▸ hmem, hother⟩

/-- A call is new only if it is in what has come in its place. -/
theorem has_of_has (hstack : s.threads[thread]? = some (top ++ rest))
    (hthreads : s'.threads = s.threads.set thread (top' ++ rest)) (h : s'.Has other)
    (hne : other ∉ top') : s.Has other := by
  obtain ⟨stack, hmem, hother⟩ := h
  rw [hthreads] at hmem
  rcases List.mem_or_eq_of_mem_set hmem with hmem | rfl
  · exact ⟨stack, hmem, hother⟩
  · exact ⟨_, List.mem_of_getElem? hstack,
      List.mem_append_right _ ((List.mem_append.1 hother).resolve_left hne)⟩

theorem has_of_next {next : Frame} (hstack : s.threads[thread]? = some (frame :: rest))
    (hthreads : s'.threads = s.threads.set thread (next :: rest)) (h : s'.Has other)
    (hne : other ≠ next) : s.Has other := by
  have hold : s.threads[thread]? = some ([frame] ++ rest) := hstack
  have hnew : s'.threads = s.threads.set thread ([next] ++ rest) := hthreads
  exact has_of_has hold hnew h (mt List.mem_singleton.1 hne)

/-- Only one call is inside of `Subscribe`. -/
theorem eq_of_inside (h : Locks s) (hstack : s.threads[thread]? = some (frame :: rest))
    (hframe : frame.inside = true) (hother : s.Has other) (hinside : other.inside = true) :
    other = frame := by
  obtain ⟨stack, hmem, hother⟩ := hother
  obtain ⟨i, hi⟩ := List.getElem?_of_mem hmem
  have howner := (h.mutex thread).2 ⟨_, hstack, by rw [inside, List.any_cons, hframe]; rfl⟩
  have howner' := (h.mutex i).2 ⟨stack, hi, List.any_eq_true.2 ⟨other, hother, hinside⟩⟩
  obtain rfl : thread = i := Option.some.inj (howner.symm.trans howner')
  obtain rfl := Option.some.inj (hi.symm.trans hstack)
  cases h.shape_of hstack with
  | base => exact List.mem_singleton.1 hother
  | nested | back => cases hframe

end Has

section Carry

variable {c : Config} {s s' : State} {thread : Nat} {frame : Frame} {rest : List Frame}

/-- What is installed does not change, and no call that installs comes or goes. -/
theorem Phase.carry (h : Phase c s) (top top' : List Frame)
    (hstack : s.threads[thread]? = some (top ++ rest))
    (hthreads : s'.threads = s.threads.set thread (top' ++ rest))
    (htop : ∀ frame ∈ top, frame.installs = false ∧ frame.links = false)
    (htop' : ∀ frame ∈ top', frame.installs = false ∧ frame.links = false)
    (hentries : s.subscriptions = [] → s'.subscriptions = []) (htimer : s'.timer = s.timer)
    (hcancellation : s'.cancellationSubscription = s.cancellationSubscription)
    (hlisted : s'.listed = s.listed) : Phase c s' := by
  have hset : TimerSet c s → TimerSet c s' := fun ht => by rwa [TimerSet, htimer]
  cases h with
  | fresh hnil ht hc hnone =>
      refine .fresh (hentries hnil) (htimer.trans ht) (hcancellation.trans hc)
        fun other hother => ?_
      by_cases hmem : other ∈ top'
      · exact htop' other hmem
      · exact hnone other (has_of_has hstack hthreads hother hmem)
  | entered other hframe hthread hnone hc =>
      refine .entered other hframe (has_kept hstack hthreads hthread fun hmem => ?_)
        (htimer.trans hnone) (hcancellation.trans hc)
      exact absurd hframe (ne_true_of_eq_false (htop other hmem).1)
  | timed other hframe hthread ht hc =>
      refine .timed other hframe (has_kept hstack hthreads hthread fun hmem => ?_) (hset ht)
        (hcancellation.trans hc)
      exact absurd hframe (ne_true_of_eq_false (htop other hmem).2)
  | armed ht hl => exact .armed (hset ht) fun hc => hlisted.trans (hl hc)

namespace Delivers

/-- A step that leaves the flags, the timer and the list alone. -/
theorem carry (h : Delivers c s) (hlocks : Locks s') (hlinked : s'.Linked) (top top' : List Frame)
    (hstack : s.threads[thread]? = some (top ++ rest))
    (hthreads : s'.threads = s.threads.set thread (top' ++ rest))
    (htop : ∀ frame ∈ top, frame ≠ .notify ∧ frame ≠ .invoke)
    (htop' : ∀ frame ∈ top', frame ≠ .notify ∧ frame ≠ .invoke)
    (helapsed : s'.elapsed = s.elapsed) (hinvoked : s'.callbacksAreInvoked = s.callbacksAreInvoked)
    (hdue : ∀ timer ∈ s'.timer, ∃ timeout ∈ c.timeout, timeout * ticksPerMillisecond ≤ timer.due)
    (hfired : ∀ timer ∈ s'.timer, timer.fired = true → timer ∈ s.timer)
    (hcancelled : s'.isCancelled = s.isCancelled)
    (hlisted : s'.listed = true → s.listed = true ∨ c.cancellation = true ∧ s.isCancelled = false)
    (htesting : s'.Has (.testTime .first) → s.callbacksAreInvoked = true →
      c.timeIsOver s.elapsed = true)
    (hphase : Phase c s') : Delivers c s' := by
  have hexpired : s'.isExpired c = s.isExpired c := by
    rw [State.isExpired, State.isExpired, hcancelled, helapsed]
  have hkept : ∀ other, (other = .notify ∨ other = .invoke) → s.Has other → s'.Has other :=
    fun other hother hhas => has_kept hstack hthreads hhas fun hmem =>
      hother.elim (htop other hmem).1 (htop other hmem).2
  have hnew : ∀ other, (other = .notify ∨ other = .invoke) → s'.Has other → s.Has other :=
    fun other hother hhas => has_of_has hstack hthreads hhas fun hmem =>
      hother.elim (htop' other hmem).1 (htop' other hmem).2
  refine ⟨hlocks, hlinked, fun hl => (hlisted hl).elim h.listing And.left, fun hn => ?_,
    fun hi => ?_, fun hi => ?_, fun ht hi => ?_, hdue, hphase, fun timer ht hf => ?_,
    fun hl hc => ?_⟩
  · rw [hcancelled]
    exact h.notifying (hnew _ (.inl rfl) hn)
  · rw [hexpired]
    exact h.invoking (hnew _ (.inr rfl) hi)
  · rw [hexpired]
    exact h.invoked (hinvoked ▸ hi)
  · rw [helapsed]
    exact htesting ht (hinvoked ▸ hi)
  · rw [hinvoked]
    exact (h.fired timer (hfired timer ht hf) hf).imp_right (hkept _ (.inr rfl))
  · rw [hinvoked]
    rw [hcancelled] at hc
    rcases hlisted hl with hlisted | ⟨-, hfalse⟩
    · exact (h.cancelled hlisted hc).imp_right
        (Or.imp (hkept _ (.inl rfl)) (hkept _ (.inr rfl)))
    · exact absurd hc (ne_true_of_eq_false hfalse)

/-- A step of calls that nobody waits for, to others. -/
theorem plain (h : Delivers c s) (hlocks : Locks s') (hlinked : s'.Linked) (top top' : List Frame)
    (hstack : s.threads[thread]? = some (top ++ rest))
    (hthreads : s'.threads = s.threads.set thread (top' ++ rest))
    (htop : top.any Frame.awaited = false) (htop' : top'.any Frame.awaited = false)
    (htests : top'.any Frame.tests = false)
    (hentries : s.subscriptions = [] → s'.subscriptions = [])
    (helapsed : s'.elapsed = s.elapsed) (hinvoked : s'.callbacksAreInvoked = s.callbacksAreInvoked)
    (htimer : s'.timer = s.timer) (hcancelled : s'.isCancelled = s.isCancelled)
    (hcancellation : s'.cancellationSubscription = s.cancellationSubscription)
    (hlisted : s'.listed = s.listed) : Delivers c s' := by
  have hplain : ∀ {l : List Frame}, l.any Frame.awaited = false → ∀ f ∈ l, f.awaited = false :=
    fun hl f hf => eq_false_of_ne_true (List.any_eq_false.1 hl f hf)
  refine h.carry hlocks hlinked top top' hstack hthreads
    (fun f hf => (Frame.of_not_awaited (hplain htop f hf)).1)
    (fun f hf => (Frame.of_not_awaited (hplain htop' f hf)).1) helapsed hinvoked (htimer ▸ h.due)
    (fun timer ht _ => htimer ▸ ht) hcancelled (fun hl => .inl (hlisted ▸ hl)) (fun ht hi => ?_) ?_
  · exact h.testing (has_of_has hstack hthreads ht fun hmem =>
      List.any_eq_false.1 htests _ hmem rfl) hi
  · exact h.phase.carry top top' hstack hthreads
      (fun f hf => (Frame.of_not_awaited (hplain htop f hf)).2)
      (fun f hf => (Frame.of_not_awaited (hplain htop' f hf)).2) hentries htimer hcancellation
      hlisted

theorem has_top (hstack : s.threads[thread]? = some (frame :: rest)) : s.Has frame :=
  ⟨_, List.mem_of_getElem? hstack, List.mem_cons_self⟩

/-- Nothing is installed yet, or everything is. -/
theorem phase_of_installs (h : Delivers c s) (hstack : s.threads[thread]? = some (frame :: rest))
    (hframe : frame.installs = true) : s.timer = none ∧ s.cancellationSubscription = false ∨
      TimerSet c s ∧ (c.cancellation = true → s.listed = true) := by
  have hinside := Frame.inside_of_installs hframe
  cases h.phase with
  | fresh _ _ _ hnone => exact absurd hframe (ne_true_of_eq_false (hnone frame (has_top hstack)).1)
  | entered _ _ _ ht hc => exact .inl ⟨ht, hc⟩
  | timed other hlinks hhas =>
      obtain rfl := eq_of_inside h.locks hstack hinside hhas (Frame.inside_of_links hlinks)
      exact absurd hframe (Frame.not_installs_of_links hlinks)
  | armed ht hl => exact .inr ⟨ht, hl⟩

theorem phase_of_links (h : Delivers c s) (hstack : s.threads[thread]? = some (frame :: rest))
    (hframe : frame.links = true) : TimerSet c s ∧ (s.cancellationSubscription = false ∨
      (c.cancellation = true → s.listed = true)) := by
  have hinside := Frame.inside_of_links hframe
  cases h.phase with
  | fresh _ _ _ hnone => exact absurd hframe (ne_true_of_eq_false (hnone frame (has_top hstack)).2)
  | entered other hinstalls hhas =>
      obtain rfl := eq_of_inside h.locks hstack hinside hhas (Frame.inside_of_installs hinstalls)
      exact absurd hinstalls (Frame.not_installs_of_links hframe)
  | timed _ _ _ ht hc => exact ⟨ht, .inl hc⟩
  | armed ht hl => exact ⟨ht, .inr hl⟩

/-- A call that installs goes on to the next place. -/
theorem phase_next (h : Delivers c s) (hstack : s.threads[thread]? = some (frame :: rest))
    (hframe : frame.installs = true) {next : Frame} (hnext : next.installs = true) :
    Phase c (s.setStack thread (next :: rest)) := by
  rcases h.phase_of_installs hstack hframe with ⟨ht, hc⟩ | ⟨ht, hl⟩
  · exact .entered next hnext (has_of_top hstack rfl List.mem_cons_self) ht hc
  · exact .armed ht hl

/-- The subscription that is entered first has everything still to install. -/
theorem phase_enter (h : Delivers c s)
    (hstack : s.threads[thread]? = some (.testTime .first :: rest)) :
    Phase c (notExpired s thread rest .first) := by
  have hnext : (notExpired s thread rest .first).Has (.testCancelled .second) :=
    has_of_top hstack rfl List.mem_cons_self
  cases h.phase with
  | fresh _ ht hc => exact .entered (.testCancelled .second) rfl hnext ht hc
  | entered other hinstalls hhas =>
      obtain rfl := eq_of_inside h.locks hstack rfl hhas (Frame.inside_of_installs hinstalls)
      cases hinstalls
  | timed other hlinks hhas =>
      obtain rfl := eq_of_inside h.locks hstack rfl hhas (Frame.inside_of_links hlinks)
      cases hlinks
  | armed ht hl => exact .armed ht hl

/-- It leaves because the expiration is expired. -/
theorem phase_expired (h : Delivers c s) (hstack : s.threads[thread]? = some (frame :: rest))
    (hframe : frame.installs = true) (hinstalled : s.installed = true) :
    Phase c (s.setStack thread (.leave :: rest)) := by
  rcases h.phase_of_installs hstack hframe with ⟨ht, hc⟩ | ⟨ht, hl⟩
  · rw [State.installed, ht, hc] at hinstalled
    cases hinstalled
  · exact .armed ht hl

end Delivers

end Carry

end MyEngine.Utils.Expiration
