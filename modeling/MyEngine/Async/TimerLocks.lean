import MyEngine.Async.TimerManagerRuns
import MyEngine.Support.Tally
import MyEngine.Threading.SpinLock

/-!
# Async — the locks of the TimerManager

Which thread has `m_mutex`, and where a coroutine runs.

* `Frame.inside`: the calls that have `m_mutex`; `active`: the places where a thread runs the
  coroutine.
* `Locks`: `m_mutex` belongs to the thread whose topmost call is inside, the calls below it are
  callbacks, and a coroutine is run by one thread.
* `Locks.step`: every step keeps them.
-/

namespace MyEngine.Async.Timers

open MyEngine.Runs MyEngine.Threading

/-- The call has `m_mutex`. -/
@[simp]
def Frame.inside : Frame → Bool
  | .find _ | .loop _ _ | .lockState _ _ _ | .resolve _ _ _ | .deleteTimer _ _ _ => true
  | .body _ | .cancelInvokeAfter _ | .dispose                                    => false

/-- The topmost call has `m_mutex`. -/
@[simp]
def inside : List Frame → Bool
  | []         => false
  | frame :: _ => frame.inside

/-- A thread runs the coroutine. -/
@[simp]
def Place.active : Place → Bool
  | .awaiting | .posted | .switching | .finished => false
  | .create | .awaitTask | .resumed | .lockState | .callback | .switched | .calling | .destroy |
    .deleteTimer => true

/-- The coroutine is in its callback. -/
def Calls (x : TimerState) : Prop := x.place = .callback ∨ x.place = .calling

/-- How often the coroutine is on the stacks. -/
def runs (s : Win32TimerManager) (timer : ℕ) : ℕ := tally (·.count (.body timer)) s.threads

structure Locks (s : Win32TimerManager) : Prop where
  mutex : Owned s.mutex s.threads inside
  callers : ∀ stack ∈ s.threads, ∀ frame ∈ stack.tail,
    ∃ timer, frame = .body timer ∧ Has s timer Calls
  once : ∀ timer x, s.timers[timer]? = some x → runs s timer = x.place.active.toNat

section Steps

variable {s s' : Win32TimerManager} {a : Action} {thread timer : ℕ} {x x' : TimerState}
  {old new : List Frame}

/-- Below the topmost call there is a callback. -/
theorem Locks.inside_tail (hs : Locks s) {frame : Frame} {stack : List Frame}
    (hstack : s.threads[thread]? = some (frame :: stack)) : inside stack = false := by
  cases stack with
  | nil => rfl
  | cons below stack =>
      obtain ⟨timer, rfl, -⟩ := hs.callers _ (List.mem_of_getElem? hstack) below
        (List.mem_cons_self)
      rfl

theorem inside_of_canCall (h : s.canCall old = true) : inside old = false := by
  cases old with
  | nil => rfl
  | cons frame stack =>
      cases frame with
      | body => rfl
      | cancelInvokeAfter | find | dispose | loop | lockState | resolve | deleteTimer => cases h

/-- Who calls is in a callback, or is a thread of its own. -/
theorem callers_of_canCall (hs : Locks s) (hstack : s.threads[thread]? = some old)
    (h : s.canCall old = true) (frame : Frame) (hmem : frame ∈ old) :
    ∃ timer, frame = .body timer ∧ Has s timer Calls := by
  cases old with
  | nil => cases hmem
  | cons top stack =>
      rcases List.mem_cons.1 hmem with rfl | hmem
      · cases frame with
        | body timer =>
            obtain ⟨x, hx, hplace⟩ := (Option.any_eq_true _ _).1 h
            exact ⟨timer, rfl, x, hx, by simpa [Calls] using hplace⟩
        | cancelInvokeAfter | find | dispose | loop | lockState | resolve | deleteTimer => cases h
      · exact hs.callers _ (List.mem_of_getElem? hstack) frame hmem

theorem Locks.runs_le (hs : Locks s) (hx : s.timers[timer]? = some x) : runs s timer ≤ 1 := by
  rw [hs.once timer x hx]
  exact Bool.toNat_le _

/-- The thread that works on a coroutine is the only one, and has come into it once. -/
theorem Locks.only (hs : Locks s) (hx : s.timers[timer]? = some x)
    (hstack : s.threads[thread]? = some (.body timer :: old)) {other : ℕ} {stack : List Frame}
    (hother : s.threads[other]? = some stack) (hmem : .body timer ∈ stack) :
    other = thread ∧ .body timer ∉ old := by
  have hle := hs.runs_le hx
  have htop : (Frame.body timer :: old).count (.body timer) = old.count (.body timer) + 1 :=
    List.count_cons_self
  constructor
  · by_contra hne
    have hadd := add_le_tally (·.count (.body timer)) hne hother hstack
    have hpos := List.count_pos_iff.2 hmem
    unfold runs at hle
    omega
  · intro hbelow
    have hone := le_tally (·.count (.body timer)) hstack
    have hpos := List.count_pos_iff.2 hbelow
    unfold runs at hle
    omega

/-- A coroutine that no thread runs is on no stack. -/
theorem Locks.not_mem (hs : Locks s) (hx : s.timers[timer]? = some x)
    (hactive : x.place.active = false) {stack : List Frame} (hmem : stack ∈ s.threads) :
    .body timer ∉ stack := by
  have hzero := hs.once timer x hx
  rw [hactive] at hzero
  exact List.count_eq_zero.1 (tally_eq_zero.1 hzero stack hmem)

/-- A call below the topmost one runs the callback of the timer. -/
def Below (s : Win32TimerManager) (timer : ℕ) : Prop :=
  ∃ stack ∈ s.threads, .body timer ∈ stack.tail

theorem Locks.not_below (hs : Locks s) (hx : s.timers[timer]? = some x)
    (hstack : s.threads[thread]? = some (.body timer :: old)) : ¬ Below s timer := by
  rintro ⟨stack, hmem, hbelow⟩
  obtain ⟨other, hother⟩ := List.mem_iff_getElem?.1 hmem
  obtain ⟨rfl, hnot⟩ := hs.only hx hstack hother (List.mem_of_mem_tail hbelow)
  obtain rfl := Option.some.inj (hstack.symm.trans hother)
  exact hnot hbelow

theorem Locks.not_below_of_inactive (hs : Locks s) (hx : s.timers[timer]? = some x)
    (hactive : x.place.active = false) : ¬ Below s timer := by
  rintro ⟨stack, hmem, hbelow⟩
  exact hs.not_mem hx hactive hmem (List.mem_of_mem_tail hbelow)

/-! ### What stays -/

/-- The callbacks under way stay where they are. -/
def Keeps (s s' : Win32TimerManager) : Prop :=
  ∀ timer, Below s timer → Has s timer Calls → Has s' timer Calls

theorem keeps_of_timers (h : s'.timers = s.timers) : Keeps s s' :=
  fun timer _ hcalls => (has_iff_of_timers h timer).2 hcalls

theorem keeps_of_set (hx : s.timers[timer]? = some x) (h : s'.timers = s.timers.set timer x')
    (hcalls : Below s timer → Calls x → Calls x') : Keeps s s' := by
  intro other hbelow hhas
  by_cases heq : timer = other
  · subst heq
    exact ⟨x', h ▸ getElem?_replaced hx x', hcalls hbelow (hhas.of_getElem? hx)⟩
  · obtain ⟨y, hy, hcalls⟩ := hhas
    exact ⟨y, by rw [h, List.getElem?_set_ne heq, hy], hcalls⟩

/-- A thread has left its topmost call, gone on in it, or come into a new one. -/
theorem Locks.of_set (hs : Locks s) (hstack : s.threads[thread]? = some old)
    (hthreads : s'.threads = s.threads.set thread new) (hmutex : Owned s'.mutex s'.threads inside)
    (hkeeps : Keeps s s')
    (htail : ∀ frame ∈ new.tail, frame ∈ old.tail ∨
      ∃ timer, frame = .body timer ∧ Has s' timer Calls)
    (hcount : ∀ timer x', s'.timers[timer]? = some x' →
      runs s timer + new.count (.body timer) =
        x'.place.active.toNat + old.count (.body timer)) : Locks s' := by
  have hold := List.mem_of_getElem? hstack
  have hbelow : ∀ stack ∈ s.threads, ∀ frame ∈ stack.tail,
      ∃ timer, frame = .body timer ∧ Has s' timer Calls := by
    intro stack hmem frame hframe
    obtain ⟨timer, rfl, hcalls⟩ := hs.callers stack hmem frame hframe
    exact ⟨timer, rfl, hkeeps timer ⟨stack, hmem, hframe⟩ hcalls⟩
  refine ⟨hmutex, ?_, fun timer x' hx' => ?_⟩
  · rw [hthreads]
    refine forall_mem_set hbelow fun frame hframe => ?_
    rcases htail frame hframe with hframe | hcalls
    · exact hbelow old hold frame hframe
    · exact hcalls
  · have hsum := tally_set (·.count (.body timer)) hstack new
    have hnew := hcount timer x' hx'
    unfold runs at hnew ⊢
    rw [hthreads]
    omega

/-- The timers stay, or one of them moves with the thread. -/
theorem Locks.count_of_timers (hs : Locks s) (h : s'.timers = s.timers)
    (hsame : ∀ timer, new.count (.body timer) = old.count (.body timer)) (timer : ℕ)
    (x' : TimerState) (hx' : s'.timers[timer]? = some x') :
    runs s timer + new.count (.body timer) = x'.place.active.toNat + old.count (.body timer) := by
  rw [h] at hx'
  rw [hs.once timer x' hx', hsame]

theorem Locks.count_of_set (hs : Locks s) (hx : s.timers[timer]? = some x)
    (h : s'.timers = s.timers.set timer x')
    (hmoved : x.place.active.toNat + new.count (.body timer) =
      x'.place.active.toNat + old.count (.body timer))
    (hsame : ∀ other, other ≠ timer → new.count (.body other) = old.count (.body other))
    (other : ℕ) (y : TimerState) (hy : s'.timers[other]? = some y) :
    runs s other + new.count (.body other) = y.place.active.toNat + old.count (.body other) := by
  rw [h] at hy
  rcases getElem?_set_cases hy with ⟨rfl, rfl⟩ | ⟨hne, hy⟩
  · rw [hs.once timer x hx, hmoved]
  · rw [hs.once other y hy, hsame other (Ne.symm hne)]

/-- No thread moves. -/
theorem Locks.of_os (hs : Locks s) (hx : s.timers[timer]? = some x)
    (hactive : x'.place.active = x.place.active) (hcalls : Calls x → Calls x') :
    Locks (s.setTimer timer x') := by
  refine ⟨hs.mutex, fun stack hmem frame hframe => ?_, fun other y hy => ?_⟩
  · obtain ⟨other, rfl, hhas⟩ := hs.callers stack hmem frame hframe
    exact ⟨other, rfl, keeps_of_set hx rfl (fun _ => hcalls) other ⟨stack, hmem, hframe⟩ hhas⟩
  · rcases getElem?_set_cases hy with ⟨rfl, rfl⟩ | ⟨-, hy⟩
    · rw [hactive]
      exact hs.once timer x hx
    · exact hs.once other y hy

/-- A thread comes into a new call. -/
theorem Locks.push (hs : Locks s) (hstack : s.threads[thread]? = some old)
    (hcall : s.canCall old = true) {frame : Frame} (hframe : frame.inside = false)
    (hthreads : s'.threads = s.threads.set thread (frame :: old)) (hmutex : s'.mutex = s.mutex)
    (hkeeps : ∀ timer, Has s timer Calls → Has s' timer Calls)
    (hcount : ∀ timer x', s'.timers[timer]? = some x' →
      runs s timer + (frame :: old).count (.body timer) =
        x'.place.active.toNat + old.count (.body timer)) : Locks s' := by
  refine hs.of_set hstack hthreads ?_ (fun timer _ => hkeeps timer) (fun frame hmem => ?_) hcount
  · rw [hthreads, hmutex]
    exact hs.mutex.keep hstack (hframe.trans (inside_of_canCall hcall).symm)
  · obtain ⟨timer, rfl, hcalls⟩ := callers_of_canCall hs hstack hcall frame hmem
    exact .inr ⟨timer, rfl, hkeeps timer hcalls⟩

/-! ### Steps -/

theorem Calls.resolve (h : Calls x) (result : TimerOperationResult) : Calls (x.resolve result) := by
  refine resolve_rec x result ?_ ?_ ?_
  · intro _
    exact h
  · intro _ hplace
    rcases h with h | h <;> cases h.symm.trans hplace
  · intro _ _
    exact h

theorem active_resolve (x : TimerState) (result : TimerOperationResult) :
    (x.resolve result).place.active = x.place.active := by
  refine resolve_rec x result ?_ ?_ ?_
  · intro _
    rfl
  · intro _ hplace
    rw [hplace]
    rfl
  · intro _ _
    rfl

/-- The thread leaves the coroutine where no thread runs it. -/
theorem Next.active {leaves : Bool} (h : Next x thread x' leaves) :
    x.place.active = true ∧ x'.place.active = !leaves := by
  cases h with
  | suspend hplace | goOn hplace | leave hplace | call hplace | called hplace | destroy hplace =>
      simp [hplace]
  | resume hplace =>
      refine ⟨by simp [hplace], ?_⟩
      rcases resume_place (x := x) with h | h | h | h <;> simp [h]
  | enter hplace =>
      refine ⟨by simp [hplace], ?_⟩
      unfold TimerState.enter
      split <;> rfl

/-- Only the coroutine on top counts. -/
theorem count_top {frame : Frame} (h : ∀ timer, frame ≠ .body timer) (stack : List Frame)
    (timer : ℕ) : (frame :: stack).count (.body timer) = stack.count (.body timer) :=
  List.count_cons_of_ne (h timer)

theorem Locks.unlock (hs : Locks s) {frame : Frame} {stack : List Frame}
    (hstack : s.threads[thread]? = some (frame :: stack)) (hinside : frame.inside = true)
    (client : Option ℕ) : Locks (s.unlock thread client stack) := by
  have hbody : ∀ timer, frame ≠ .body timer := by
    rintro timer rfl
    cases hinside
  have hmutex : Owned none (s.threads.set thread stack) inside :=
    hs.mutex.release hstack hinside (hs.inside_tail hstack)
  have htail : ∀ other ∈ stack.tail, other ∈ stack := fun other => List.mem_of_mem_tail
  rcases unlock_cases s thread client stack with ⟨timer, x, -, hx, heq⟩ | heq
  · rw [heq]
    refine hs.of_set hstack rfl hmutex (keeps_of_set hx rfl fun _ h => h)
      (fun other hmem => .inl (htail other hmem)) (hs.count_of_set hx rfl ?_ ?_)
    · rw [count_top hbody]
    · exact fun other _ => (count_top hbody stack other).symm
  · rw [heq]
    exact hs.of_set hstack rfl hmutex (keeps_of_timers rfl)
      (fun other hmem => .inl (htail other hmem))
      (hs.count_of_timers rfl fun timer => (count_top hbody stack timer).symm)

/-- The topmost call goes on with `m_mutex`. -/
theorem Locks.goOn (hs : Locks s) {frame top : Frame} {stack : List Frame}
    (hstack : s.threads[thread]? = some (frame :: stack)) (hinside : frame.inside = true)
    (htop : top.inside = true) (hthreads : s'.threads = s.threads.set thread (top :: stack))
    (hmutex : s'.mutex = s.mutex)
    (htimers : s'.timers = s.timers ∨ ∃ timer x x', s.timers[timer]? = some x ∧
      s'.timers = s.timers.set timer x' ∧ x'.place.active = x.place.active ∧
        (Calls x → Calls x')) : Locks s' := by
  have hsame : ∀ timer,
      (top :: stack).count (.body timer) = (frame :: stack).count (.body timer) := by
    intro timer
    rw [count_top, count_top]
    · rintro timer rfl
      cases hinside
    · rintro timer rfl
      cases htop
  have howned : Owned s'.mutex s'.threads inside := by
    rw [hmutex, hthreads]
    exact hs.mutex.keep hstack (htop.trans hinside.symm)
  have htail : ∀ other ∈ stack, other ∈ (frame :: stack).tail := fun _ h => h
  rcases htimers with htimers | ⟨timer, x, x', hx, htimers, hactive, hcalls⟩
  · exact hs.of_set hstack hthreads howned (keeps_of_timers htimers)
      (fun other hmem => .inl (htail other hmem)) (hs.count_of_timers htimers hsame)
  · refine hs.of_set hstack hthreads howned (keeps_of_set hx htimers fun _ => hcalls)
      (fun other hmem => .inl (htail other hmem)) (hs.count_of_set hx htimers ?_ ?_)
    · rw [hactive, hsame]
    · exact fun other _ => hsame other

/-- The topmost call takes `m_mutex`. -/
theorem Locks.lock (hs : Locks s) {frame top : Frame} {stack : List Frame}
    (hstack : s.threads[thread]? = some (frame :: stack)) (hbody : ∀ timer, frame ≠ .body timer)
    (htop : top.inside = true) (hfree : s.mutex = none) :
    Locks ({ s with mutex := some thread }.setStack thread (top :: stack)) := by
  have hnot : ∀ timer, top ≠ .body timer := by
    rintro timer rfl
    cases htop
  have hmutex : Owned none s.threads inside := hfree ▸ hs.mutex
  refine hs.of_set hstack rfl (hmutex.take hstack htop) (keeps_of_timers rfl)
    (fun other hmem => .inl hmem) (hs.count_of_timers rfl fun timer => ?_)
  rw [count_top hnot, count_top hbody]

/-- The coroutine goes on in a section of the manager. -/
theorem Locks.section (hs : Locks s) {stack : List Frame}
    (hstack : s.threads[thread]? = some (.body timer :: stack)) (hx : s.timers[timer]? = some x)
    (hactive : x'.place.active = x.place.active)
    (hthreads : s'.threads = s.threads.set thread (.body timer :: stack))
    (hmutex : s'.mutex = s.mutex) (htimers : s'.timers = s.timers.set timer x') : Locks s' := by
  refine hs.of_set hstack hthreads ?_
    (keeps_of_set hx htimers fun h => absurd h (hs.not_below hx hstack)) (fun _ => .inl)
    (hs.count_of_set hx htimers (by rw [hactive]) fun _ _ => rfl)
  rw [hthreads, hmutex]
  exact hs.mutex.keep hstack rfl

/-- An executor takes the coroutine up. -/
theorem Locks.run (hs : Locks s) (hstack : s.threads[thread]? = some [])
    (hx : s.timers[timer]? = some x) (hbefore : x.place.active = false)
    (hafter : x'.place.active = true) :
    Locks ((s.setTimer timer x').setStack thread [.body timer]) := by
  refine hs.of_set hstack rfl (hs.mutex.keep hstack rfl)
    (keeps_of_set hx rfl fun h => absurd h (hs.not_below_of_inactive hx hbefore))
    (fun _ h => by cases h) (hs.count_of_set hx rfl ?_ fun other hother => ?_)
  · rw [hbefore, hafter]
    simp
  · refine List.count_cons_of_ne fun heq => hother ?_
    injection heq with heq
    exact heq.symm

theorem Locks.step (hi : Inv s) (hs : Locks s) (h : Stepped s a s') : Locks s' := by
  cases h with
  | @invokeAfter thread stack kind hstack hcall =>
      refine hs.push hstack hcall rfl rfl rfl ?_ fun timer x' hx' => ?_
      · rintro timer ⟨x, hx, hcalls⟩
        exact ⟨x, getElem?_concat_of_some hx _, hcalls⟩
      · rcases getElem?_concat_cases hx' with hx | ⟨rfl, rfl⟩
        · have hne : Frame.body s.timers.length ≠ .body timer := by
            intro heq
            injection heq with heq
            exact absurd (List.getElem?_eq_some_iff.1 hx).1 (heq ▸ Nat.lt_irrefl _)
          rw [hs.once timer x' hx, List.count_cons_of_ne hne]
        · -- No stack has come to the new timer yet.
          have hzero : runs s s.timers.length = 0 := by
            refine tally_eq_zero.2 fun stack hmem => List.count_eq_zero.2 fun hbody => ?_
            have hlt : s.timers.length < s.timers.length := hi.knows stack hmem _ hbody
            exact Nat.lt_irrefl _ hlt
          rw [hzero, List.count_cons_self]
          simp
          omega
  | cancelInvokeAfter hstack hcall | dispose hstack hcall =>
      refine hs.push hstack hcall rfl rfl rfl (fun _ h => h) (hs.count_of_timers rfl ?_)
      exact fun timer => count_top (fun _ h => by cases h) _ timer
  | disposeAgain => exact hs
  | run hstack hx hplace => exact hs.run hstack hx (by rw [hplace]; rfl) rfl
  | runSwitched hstack hx hplace => exact hs.run hstack hx (by rw [hplace]; rfl) rfl
  | create hstack hx hplace =>
      refine hs.section hstack hx ?_ rfl rfl rfl
      rw [hplace]
      unfold TimerState.construct
      split <;> rfl
  | remove hstack hx hplace => exact hs.section hstack hx (by rw [hplace]; rfl) rfl rfl rfl
  | @next thread timer x x' leaves stack hstack hx hnext =>
      obtain ⟨hbefore, hafter⟩ := (next_of_next hnext).active
      have hkeeps : Keeps s ((s.setTimer timer x').setStack thread
          (if leaves then stack else .body timer :: stack)) :=
        keeps_of_set hx rfl fun h => absurd h (hs.not_below hx hstack)
      cases leaves with
      | true =>
          refine hs.of_set hstack rfl (hs.mutex.keep hstack (hs.inside_tail hstack)) hkeeps
            (fun other hmem => .inl (List.mem_of_mem_tail hmem)) (hs.count_of_set hx rfl ?_ ?_)
          · rw [hbefore, hafter]
            simp
            omega
          · intro other hother
            refine (List.count_cons_of_ne fun heq => hother ?_).symm
            injection heq with heq
            exact heq.symm
      | false => exact hs.section hstack hx (hafter.trans hbefore.symm) rfl rfl rfl
  | lockCancel hstack hmutex => exact hs.lock hstack (fun _ h => by cases h) rfl hmutex
  | lockDispose hstack hmutex => exact hs.lock hstack (fun _ h => by cases h) rfl hmutex
  | found hstack | loop hstack => exact hs.goOn hstack rfl rfl rfl rfl (.inl rfl)
  | notFound hstack | unlock hstack => exact hs.unlock hstack rfl _
  | lockState hstack hx | deleteTimer hstack hx =>
      exact hs.goOn hstack rfl rfl rfl rfl (.inr ⟨_, _, _, hx, rfl, rfl, fun h => h⟩)
  | resolve hstack hx =>
      exact hs.goOn hstack rfl rfl rfl rfl
        (.inr ⟨_, _, _, hx, rfl, active_resolve _ _, fun h => h.resolve _⟩)
  | fire hx | osReturn hx => exact hs.of_os hx rfl fun h => h
  | osResolve hx =>
      exact hs.of_os hx (active_resolve _ .success) fun h => h.resolve .success

theorem locks_start (threads : ℕ) : Locks (start threads) where
  mutex := .replicate rfl
  callers stack hstack frame hframe := by
    rw [List.eq_of_mem_replicate hstack] at hframe
    cases hframe
  once timer x hx := by cases hx

end Steps

end MyEngine.Async.Timers
