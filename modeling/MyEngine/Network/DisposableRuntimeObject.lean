import MyEngine.Support.Replace
import MyEngine.Support.Runs
import MyEngine.Support.Tally

/-!
# Network — DisposableRuntimeObject

`disposable_runtime_object.cpp`, and the `dispose` and the destructor of `StreamSocket` and of
`Listener`: the close callback runs on the runtime thread, within the call or scheduled there.

* `Frame`: the places in `doDispose`, of a thread's stack.
* `step`: a holder's call, the next access of a thread, or an invocation on the runtime thread.
* `closed_once`: the callback runs once before the object is gone, on the runtime thread, and
  nothing of it is left behind.
-/

namespace MyEngine.Network.DisposableRuntimeObject

open Runs

/-! ### The code -/

/-- The coroutine that is scheduled: with an own reference, or the destructor's, which waits. -/
inductive Job where
  | detached
  | waited
  deriving DecidableEq, Repr

/-- Where a thread is in a call.  A call of `doDispose` is the destructor's when it has to wait. -/
inductive Frame where
  /-- Before the `exchange`. -/
  | doDispose (waitFor : Bool)
  /-- The flag was not set. -/
  | exchanged (waitFor : Bool)
  /-- In the detached coroutine, behind `addRef`. -/
  | referenced
  /-- In `async::wait`. -/
  | waiting
  /-- In the callback, called by `doDispose` itself. -/
  | callback (waitFor : Bool)
  /-- In the callback, called by a scheduled coroutine. -/
  | scheduledCallback (job : Job)
  /-- Behind it, before `releaseRef`. -/
  | releasing
  /-- In the destructor, behind `doDispose`. -/
  | leaving
  deriving DecidableEq, Repr

/-- A thread with the references it holds. -/
structure Thread where
  held : ℕ := 0
  stack : List Frame := []
  deriving DecidableEq, Repr

/-- The object, its threads, and the invocations that are scheduled to the runtime thread. -/
structure State where
  counter : ℕ
  m_isDisposed : Bool := false
  freed : Bool := false
  threads : List Thread
  queue : List Job := []
  /-- The task of the destructor's coroutine is ready; it is gone when the wait is over. -/
  ready : Bool := false
  /-- The threads on which the callback has been started. -/
  started : List ℕ := []
  /-- How often it has returned. -/
  finished : ℕ := 0
  deriving DecidableEq, Repr

/-- `give` is a reference handed to another thread, `advance` the next access of the call a thread
is in, `invoke` the runtime thread's loop. -/
inductive Action where
  | acquire (thread : ℕ)
  | give (thread other : ℕ)
  | release (thread : ℕ)
  | dispose (thread : ℕ)
  | advance (thread : ℕ)
  | invoke
  deriving DecidableEq, Repr

/-- A call of `dispose`, which its caller's reference keeps alive. -/
@[simp] def Frame.borrows : Frame → Bool
  | .doDispose waitFor | .exchanged waitFor | .callback waitFor => !waitFor
  | .referenced => true
  | _ => false

/-- The thread runs code of its own: it is in no call, or in the callback. -/
def Thread.free (thread : Thread) : Bool :=
  match thread.stack with
  | [] | .callback _ :: _ | .scheduledCallback _ :: _ => true
  | _ => false

/-- The thread has a reference that none of its calls of `dispose` needs. -/
def Thread.spare (thread : Thread) : Bool :=
  decide (2 ≤ thread.held) ||
    decide (thread.held = 1) && thread.stack.all fun frame => !frame.borrows

namespace State

def setThread (s : State) (thread : ℕ) (t : Thread) : State :=
  { s with threads := s.threads.set thread t }

/-- `releaseRef`: the one that takes the last reference runs the destructor. -/
def releaseRef (s : State) (thread held : ℕ) (stack : List Frame) : State :=
  let s := { s with counter := s.counter - 1 }
  if s.counter = 0 then s.setThread thread ⟨held, .doDispose true :: stack⟩
  else s.setThread thread ⟨held, stack⟩

/-- The next access of the call that a thread is in. -/
def advance (runtime : ℕ) (s : State) (thread held : ℕ) (rest : List Frame) :
    Frame → Option State
  | .doDispose waitFor =>
      if s.m_isDisposed then
        some (s.setThread thread ⟨held, if waitFor then .leaving :: rest else rest⟩)
      else
        some ({ s with m_isDisposed := true }.setThread thread ⟨held, .exchanged waitFor :: rest⟩)
  | .exchanged waitFor =>
      if thread = runtime then
        some ({ s with started := thread :: s.started }.setThread thread
          ⟨held, .callback waitFor :: rest⟩)
      else if waitFor then
        some ({ s with queue := s.queue ++ [Job.waited] }.setThread thread ⟨held, .waiting :: rest⟩)
      else
        some ({ s with counter := s.counter + 1 }.setThread thread ⟨held, .referenced :: rest⟩)
  | .referenced =>
      some ({ s with queue := s.queue ++ [Job.detached] }.setThread thread ⟨held, rest⟩)
  | .waiting =>
      if s.ready then
        some ({ s with ready := false }.setThread thread ⟨held, .leaving :: rest⟩)
      else none
  | .callback waitFor =>
      some ({ s with finished := s.finished + 1 }.setThread thread
        ⟨held, if waitFor then .leaving :: rest else rest⟩)
  | .scheduledCallback job =>
      let s := { s with finished := s.finished + 1 }
      match job with
      | .detached => some (s.setThread thread ⟨held, .releasing :: rest⟩)
      | .waited   => some ({ s with ready := true }.setThread thread ⟨held, rest⟩)
  | .releasing => some (s.releaseRef thread held rest)
  | .leaving   => some ({ s with freed := true }.setThread thread ⟨held, rest⟩)

end State

/-- A reference may be copied, or come out of a weak one, as long as there is one. -/
def step (runtime : ℕ) (s : State) : Action → Option State
  | .acquire thread =>
      match s.threads[thread]? with
      | some t =>
          if t.free = true ∧ s.counter ≠ 0 then
            some ({ s with counter := s.counter + 1 }.setThread thread ⟨t.held + 1, t.stack⟩)
          else none
      | none => none
  | .give thread other =>
      match s.threads[thread]?, s.threads[other]? with
      | some t, some u =>
          if t.free = true ∧ t.spare = true ∧ thread ≠ other then
            let s := s.setThread thread ⟨t.held - 1, t.stack⟩
            some (s.setThread other ⟨u.held + 1, u.stack⟩)
          else none
      | _, _ => none
  | .release thread =>
      match s.threads[thread]? with
      | some t =>
          if t.free = true ∧ t.spare = true then
            some (s.releaseRef thread (t.held - 1) t.stack)
          else none
      | none => none
  | .dispose thread =>
      match s.threads[thread]? with
      | some t =>
          if t.free = true ∧ t.held ≠ 0 then
            some (s.setThread thread ⟨t.held, .doDispose false :: t.stack⟩)
          else none
      | none => none
  | .advance thread =>
      match s.threads[thread]? with
      | some ⟨held, frame :: rest⟩ => s.advance runtime thread held rest frame
      | _ => none
  | .invoke =>
      match s.threads[runtime]?, s.queue with
      | some ⟨held, []⟩, job :: queue =>
          some ({ s with queue := queue, started := runtime :: s.started }.setThread runtime
            ⟨held, [.scheduledCallback job]⟩)
      | _, _ => none

/-- An object, referenced by these threads as often as `held` says. -/
def State.create (held : List ℕ) : State where
  counter := held.sum
  threads := held.map fun n => { held := n }

/-! ### What the frames stand for -/

/-- A flag, as a number. -/
def flag (b : Bool) : ℕ := if b then 1 else 0

@[simp] theorem flag_true : flag true = 1 := rfl

@[simp] theorem flag_false : flag false = 0 := rfl

theorem flag_le (b : Bool) : flag b ≤ 1 := by
  cases b <;> decide

theorem eq_false_of_flag {b : Bool} (h : flag b = 0) : b = false := by
  cases b with
  | false => rfl
  | true => cases h

namespace Frame

/-- A reference of the detached coroutine. -/
@[simp] def refs : Frame → ℕ
  | .referenced | .scheduledCallback .detached | .releasing => 1
  | _ => 0

/-- The call has set the flag, and the callback has not returned. -/
@[simp] def winner : Frame → ℕ
  | .exchanged _ | .referenced | .callback _ | .scheduledCallback _ => 1
  | _ => 0

/-- The callback runs. -/
@[simp] def running : Frame → ℕ
  | .callback _ | .scheduledCallback _ => 1
  | _ => 0

/-- The destructor is before the `exchange`. -/
@[simp] def entered : Frame → ℕ
  | .doDispose true => 1
  | _ => 0

@[simp] def awaits : Frame → ℕ
  | .waiting => 1
  | _ => 0

@[simp] def leaves : Frame → ℕ
  | .leaving => 1
  | _ => 0

/-- The destructor. -/
@[simp] def destructs : Frame → ℕ
  | .doDispose true | .exchanged true | .callback true | .waiting | .leaving => 1
  | _ => 0

/-- What the destructor waits for. -/
@[simp] def awaited : Frame → ℕ
  | .scheduledCallback .waited => 1
  | _ => 0

/-- A call of `dispose`. -/
@[simp] def borrowed (frame : Frame) : ℕ := frame.borrows.toNat

/-- A call that brings the callback to run has a reference, its caller's or its own, or is the
destructor's. -/
theorem winner_le (f : Frame) :
    f.winner + f.entered ≤ (f.refs + f.borrowed) + (f.destructs + f.awaited) := by
  cases f with
  | doDispose waitFor => cases waitFor <;> decide
  | exchanged waitFor => cases waitFor <;> decide
  | callback waitFor => cases waitFor <;> decide
  | scheduledCallback job => cases job <;> decide
  | referenced | waiting | releasing | leaving => decide

theorem running_le (f : Frame) : f.running ≤ f.winner := by
  cases f with
  | exchanged | referenced => exact Nat.zero_le 1
  | _ => exact Nat.le_refl _

theorem entered_le (f : Frame) : f.entered + (f.awaits + f.leaves) ≤ f.destructs := by
  cases f with
  | doDispose waitFor => cases waitFor <;> decide
  | exchanged waitFor => cases waitFor <;> decide
  | callback waitFor => cases waitFor <;> decide
  | scheduledCallback job => cases job <;> decide
  | referenced | waiting | releasing | leaving => decide

/-- Every frame stands for something. -/
theorem one_le (f : Frame) : 1 ≤ (f.refs + f.borrowed) + (f.destructs + f.winner) := by
  cases f with
  | doDispose waitFor => cases waitFor <;> decide
  | exchanged waitFor => cases waitFor <;> decide
  | callback waitFor => cases waitFor <;> decide
  | scheduledCallback job => cases job <;> decide
  | referenced | waiting | releasing | leaving => decide

end Frame

/-- The frames of all threads, each by its weight. -/
def total (w : Frame → ℕ) (threads : List Thread) : ℕ := tally (fun t => tally w t.stack) threads

section

variable {w v : Frame → ℕ} {threads : List Thread} {i : ℕ} {t : Thread}

theorem total_set (w : Frame → ℕ) (h : threads[i]? = some t) (t' : Thread) :
    total w (threads.set i t') + tally w t.stack = total w threads + tally w t'.stack :=
  tally_set (fun t : Thread => tally w t.stack) h t'

theorem total_add : total (fun f => w f + v f) threads = total w threads + total v threads := by
  rw [total, total, total, ← tally_add]
  exact tally_congr fun t _ => tally_add w v t.stack

theorem total_le (h : ∀ f, w f ≤ v f) : total w threads ≤ total v threads :=
  tally_le_tally fun _ _ => tally_le_tally fun f _ => h f

theorem exists_of_total (h : total w threads ≠ 0) :
    ∃ t ∈ threads, ∃ f ∈ t.stack, w f ≠ 0 := by
  by_contra hno
  refine h (tally_eq_zero.2 fun t ht => tally_eq_zero.2 fun f hf => ?_)
  by_contra hne
  exact hno ⟨t, ht, f, hf, hne⟩

theorem le_total (w : Frame → ℕ) (h : threads[i]? = some t) :
    tally w t.stack ≤ total w threads :=
  le_tally (fun t : Thread => tally w t.stack) h

end

/-! ### The invariant -/

/-- The references are counted, one destructor runs from the last of them on, and one call at most
brings the callback to run, once. -/
structure Inv (runtime : ℕ) (s : State) : Prop where
  counter : s.counter =
    tally Thread.held s.threads + total Frame.refs s.threads + s.queue.count .detached
  destructor : s.counter = 0 ∧ total Frame.destructs s.threads + flag s.freed = 1 ∨
    s.counter ≠ 0 ∧ total Frame.destructs s.threads + flag s.freed = 0
  winner : total Frame.winner s.threads + s.queue.length + s.finished = flag s.m_isDisposed
  started : s.started = List.replicate (total Frame.running s.threads + s.finished) runtime
  borrowed : ∀ t ∈ s.threads, t.held = 0 → tally Frame.borrowed t.stack = 0
  awaited : total Frame.awaits s.threads =
    s.queue.count .waited + total Frame.awaited s.threads + flag s.ready
  leaving : total Frame.leaves s.threads + flag s.freed + flag s.ready ≤ s.finished

namespace Inv

variable {runtime : ℕ} {s s' : State} {i : ℕ} {t t' : Thread}

/-- A thread goes on: what the step does to each count. -/
theorem move (h : Inv runtime s) (ht : s.threads[i]? = some t)
    (hthreads : s'.threads = s.threads.set i t')
    (hcounter : s'.counter + t.held + tally Frame.refs t.stack + s.queue.count .detached =
      s.counter + t'.held + tally Frame.refs t'.stack + s'.queue.count .detached)
    (hdestructor : s'.counter = 0 ∧ total Frame.destructs s.threads +
        tally Frame.destructs t'.stack + flag s'.freed = 1 + tally Frame.destructs t.stack ∨
      s'.counter ≠ 0 ∧ total Frame.destructs s.threads +
        tally Frame.destructs t'.stack + flag s'.freed = tally Frame.destructs t.stack)
    (hwinner : tally Frame.winner t'.stack + s'.queue.length + s'.finished + flag s.m_isDisposed =
      tally Frame.winner t.stack + s.queue.length + s.finished + flag s'.m_isDisposed)
    (hstarted : ∃ n, s'.started = List.replicate n runtime ++ s.started ∧
      tally Frame.running t'.stack + s'.finished = n + tally Frame.running t.stack + s.finished)
    (hborrowed : t'.held = 0 → tally Frame.borrowed t'.stack = 0)
    (hawaited : tally Frame.awaits t'.stack + s.queue.count .waited + tally Frame.awaited t.stack +
        flag s.ready =
      tally Frame.awaits t.stack + s'.queue.count .waited + tally Frame.awaited t'.stack +
        flag s'.ready)
    (hleaving : total Frame.leaves s.threads + tally Frame.leaves t'.stack + flag s'.freed +
      flag s'.ready ≤ s'.finished + tally Frame.leaves t.stack) : Inv runtime s' := by
  have hset := fun w => total_set w ht t'
  have hheld := tally_set Thread.held ht t'
  have hrefs := hset Frame.refs
  have hdestructs := hset Frame.destructs
  have hwinners := hset Frame.winner
  have hrunning := hset Frame.running
  have hawaits := hset Frame.awaits
  have hawait := hset Frame.awaited
  have hleaves := hset Frame.leaves
  obtain ⟨n, hst, hn⟩ := hstarted
  constructor
  all_goals rw [hthreads]
  case counter => have := h.counter; omega
  case destructor => omega
  case winner => have := h.winner; omega
  case started =>
    rw [hst, h.started, List.replicate_append_replicate]
    congr 1
    omega
  case borrowed => exact forall_mem_set h.borrowed hborrowed
  case awaited => have := h.awaited; omega
  case leaving => omega

theorem length_queue (queue : List Job) :
    queue.length = queue.count .detached + queue.count .waited := by
  induction queue with
  | nil => rfl
  | cons job queue ih =>
      rw [List.length_cons, ih, List.count_cons, List.count_cons]
      cases job with
      | detached => exact Nat.add_right_comm _ _ _
      | waited => rfl

/-- There is no reference, and no call that needs one. -/
theorem unreferenced (h : Inv runtime s) (hc : s.counter = 0) :
    total Frame.refs s.threads = 0 ∧ s.queue.count .detached = 0 ∧
      total Frame.borrowed s.threads = 0 := by
  have hcounter := h.counter
  have hheld : tally Thread.held s.threads = 0 := by omega
  refine ⟨by omega, by omega, tally_eq_zero.2 fun t ht => ?_⟩
  exact h.borrowed t ht (tally_eq_zero.1 hheld t ht)

theorem winner_le (h : Inv runtime s) (hc : s.counter = 0) :
    total Frame.winner s.threads + total Frame.entered s.threads ≤
      total Frame.destructs s.threads + total Frame.awaited s.threads := by
  obtain ⟨hrefs, -, hborrowed⟩ := h.unreferenced hc
  have hle : total (fun f => f.winner + f.entered) s.threads ≤
      total (fun f => (f.refs + f.borrowed) + (f.destructs + f.awaited)) s.threads :=
    total_le Frame.winner_le
  simp only [total_add] at hle
  omega

/-- When the destructor comes to a flag that is set, the callback has returned. -/
theorem finished (h : Inv runtime s) (ht : s.threads[i]? = some t) (hd : s.m_isDisposed = true)
    (hf : tally Frame.entered t.stack ≠ 0) :
    total Frame.leaves s.threads + flag s.freed + flag s.ready = 0 ∧ s.finished = 1 := by
  have hentered := le_total Frame.entered ht
  have hle : total (fun f => f.entered + (f.awaits + f.leaves)) s.threads ≤
      total Frame.destructs s.threads :=
    total_le Frame.entered_le
  simp only [total_add] at hle
  have hdestructor := h.destructor
  have hcount : s.counter = 0 := by omega
  have hwinner := h.winner
  have hawaited := h.awaited
  have hlength := length_queue s.queue
  have hwinners := h.winner_le hcount
  obtain ⟨-, hdetached, -⟩ := h.unreferenced hcount
  rw [hd, flag_true] at hwinner
  omega

/-- Behind the destructor nothing is left. -/
theorem gone (h : Inv runtime s) (hf : s.freed = true) :
    s.counter = 0 ∧ s.finished = 1 ∧ s.queue = [] ∧ ∀ t ∈ s.threads, t = {} := by
  have hdestructor := h.destructor
  rw [hf, flag_true] at hdestructor
  have hcount : s.counter = 0 := by omega
  have hwinner := h.winner
  have hleaving := h.leaving
  have hdisposed := flag_le s.m_isDisposed
  rw [hf, flag_true] at hleaving
  obtain ⟨hrefs, -, hborrowed⟩ := h.unreferenced hcount
  have hle : total (fun _ => 1) s.threads ≤
      total (fun f => (f.refs + f.borrowed) + (f.destructs + f.winner)) s.threads :=
    total_le Frame.one_le
  simp only [total_add] at hle
  refine ⟨hcount, by omega, List.length_eq_zero_iff.1 (by omega), fun t ht => ?_⟩
  have hframes : total (fun _ => 1) s.threads = 0 := by omega
  have hstack : t.stack = [] := by
    have hzero := tally_eq_zero.1 hframes t ht
    rw [List.eq_nil_iff_forall_not_mem]
    intro f hf
    cases tally_eq_zero.1 hzero f hf
  have hheld : t.held = 0 := by
    have hcounter := h.counter
    have hzero : tally Thread.held s.threads = 0 := by omega
    exact tally_eq_zero.1 hzero t ht
  obtain ⟨held, stack⟩ := t
  obtain rfl : stack = [] := hstack
  obtain rfl : held = 0 := hheld
  rfl

/-- A reference is released. -/
theorem releaseRef (h : Inv runtime s) (ht : s.threads[i]? = some t) {held : ℕ}
    {stack : List Frame}
    (hrefs : held + tally Frame.refs stack + 1 = t.held + tally Frame.refs t.stack)
    (hsame : ∀ w ∈ [Frame.destructs, Frame.winner, Frame.running, Frame.awaits, Frame.awaited,
      Frame.leaves], tally w stack = tally w t.stack)
    (hborrowed : held = 0 → tally Frame.borrowed stack = 0) :
    Inv runtime (s.releaseRef i held stack) := by
  have hheld := le_tally Thread.held ht
  have hle := le_total Frame.refs ht
  have hcounter := h.counter
  have hleaving := h.leaving
  simp only [List.forall_mem_cons] at hsame
  obtain ⟨hdestructs, hwinner, hrunning, hawaits, hawaited, hleaves, -⟩ := hsame
  have hne : s.counter ≠ 0 := by omega
  have hdestructor := h.destructor
  simp only [State.releaseRef]
  split
  next hzero =>
    refine h.move ht rfl ?_ (.inl ⟨hzero, ?_⟩) ?_ ⟨0, rfl, ?_⟩ (fun hh => ?_) ?_ ?_
    all_goals simp [State.setThread]
    all_goals omega
  next hpos =>
    refine h.move ht rfl ?_ (.inr ⟨hpos, ?_⟩) ?_ ⟨0, rfl, ?_⟩ hborrowed ?_ ?_
    all_goals simp only [State.setThread]
    all_goals omega

/-- The next access of a call. -/
theorem advance {held : ℕ} {frame : Frame} {rest : List Frame} (h : Inv runtime s)
    (ht : s.threads[i]? = some ⟨held, frame :: rest⟩)
    (hs : s.advance runtime i held rest frame = some s') : Inv runtime s' := by
  have hborrowed := h.borrowed _ (List.mem_of_getElem? ht)
  have hleaving := h.leaving
  have hcounter := h.counter
  have hdestructor := h.destructor
  have hheld := le_tally Thread.held ht
  have hrefs := le_total Frame.refs ht
  have hdestructs := le_total Frame.destructs ht
  simp only [tally_cons] at hborrowed hrefs hdestructs hheld
  cases frame with
  | doDispose waitFor =>
      simp only [State.advance] at hs
      split at hs
      next hd =>
        obtain rfl := Option.some.inj hs
        cases waitFor with
        | true =>
            have hfinished := h.finished ht hd (by simp)
            refine h.move ht rfl ?_ ?_ ?_ ⟨0, rfl, ?_⟩ ?_ ?_ ?_
            all_goals simp [State.setThread] at hborrowed hdestructs ⊢
            all_goals omega
        | false =>
            refine h.move ht rfl ?_ ?_ ?_ ⟨0, rfl, ?_⟩ ?_ ?_ ?_
            all_goals simp [State.setThread] at hborrowed hdestructs ⊢
            all_goals omega
      next hd =>
        obtain rfl := Option.some.inj hs
        rw [Bool.not_eq_true] at hd
        refine h.move ht rfl ?_ ?_ ?_ ⟨0, rfl, ?_⟩ hborrowed ?_ ?_
        all_goals cases waitFor <;> simp [State.setThread, hd] at hdestructs ⊢
        all_goals omega
  | exchanged waitFor =>
      simp only [State.advance] at hs
      split at hs
      next hi =>
        obtain rfl := Option.some.inj hs
        refine h.move ht rfl ?_ ?_ ?_ ⟨1, by rw [hi]; rfl, ?_⟩ hborrowed ?_ ?_
        all_goals cases waitFor <;> simp [State.setThread] at hdestructs ⊢
        all_goals omega
      next =>
        split at hs
        next hwait =>
          obtain rfl := Option.some.inj hs
          obtain rfl : waitFor = true := hwait
          refine h.move ht rfl ?_ ?_ ?_ ⟨0, rfl, ?_⟩ ?_ ?_ ?_
          all_goals simp [State.setThread] at hborrowed hdestructs ⊢
          all_goals omega
        next hwait =>
          obtain rfl := Option.some.inj hs
          obtain rfl : waitFor = false := by simpa using hwait
          refine h.move ht rfl ?_ ?_ ?_ ⟨0, rfl, ?_⟩ ?_ ?_ ?_
          all_goals simp [State.setThread] at hborrowed hdestructs ⊢
          all_goals omega
  | referenced =>
      obtain rfl := Option.some.inj hs
      refine h.move ht rfl ?_ ?_ ?_ ⟨0, rfl, ?_⟩ ?_ ?_ ?_
      all_goals simp [State.setThread] at hborrowed hdestructs ⊢
      all_goals omega
  | waiting =>
      simp only [State.advance] at hs
      split at hs
      next hready =>
        obtain rfl := Option.some.inj hs
        rw [hready] at hleaving
        refine h.move ht rfl ?_ ?_ ?_ ⟨0, rfl, ?_⟩ ?_ ?_ ?_
        all_goals simp [State.setThread, hready] at hborrowed hdestructs hleaving ⊢
        all_goals omega
      next => cases hs
  | callback waitFor =>
      obtain rfl := Option.some.inj hs
      refine h.move ht rfl ?_ ?_ ?_ ⟨0, rfl, ?_⟩ ?_ ?_ ?_
      all_goals cases waitFor <;> simp [State.setThread] at hborrowed hdestructs ⊢
      all_goals omega
  | scheduledCallback job =>
      cases job with
      | detached =>
          obtain rfl := Option.some.inj hs
          refine h.move ht rfl ?_ ?_ ?_ ⟨0, rfl, ?_⟩ ?_ ?_ ?_
          all_goals simp [State.setThread] at hborrowed hdestructs ⊢
          all_goals omega
      | waited =>
          obtain rfl := Option.some.inj hs
          have hwinner := h.winner
          have hflag := flag_le s.m_isDisposed
          have hwinners := le_total Frame.winner ht
          simp only [tally_cons, Frame.winner] at hwinners
          have hready : s.ready = false := eq_false_of_flag (by omega)
          refine h.move ht rfl ?_ ?_ ?_ ⟨0, rfl, ?_⟩ ?_ ?_ ?_
          all_goals simp [State.setThread, hready] at hborrowed hdestructs ⊢
          all_goals omega
  | releasing =>
      obtain rfl := Option.some.inj hs
      refine h.releaseRef ht ?_ ?_ ?_
      all_goals simp at hborrowed ⊢
      all_goals omega
  | leaving =>
      obtain rfl := Option.some.inj hs
      simp only [Frame.destructs] at hdestructs
      have hfreed : s.freed = false := eq_false_of_flag (by omega)
      refine h.move ht rfl ?_ ?_ ?_ ⟨0, rfl, ?_⟩ ?_ ?_ ?_
      all_goals simp [State.setThread, hfreed] at hborrowed hdestructs hdestructor ⊢
      all_goals omega

theorem held_of_spare (hspare : t.spare = true) : t.held ≠ 0 := by
  simp only [Thread.spare, Bool.or_eq_true, decide_eq_true_eq, Bool.and_eq_true] at hspare
  omega

/-- A spare reference leaves one for the calls of `dispose`. -/
theorem borrowed_of_spare (hspare : t.spare = true) (hh : t.held - 1 = 0) :
    tally Frame.borrowed t.stack = 0 := by
  simp only [Thread.spare, Bool.or_eq_true, decide_eq_true_eq, Bool.and_eq_true, List.all_eq_true,
    Bool.not_eq_true'] at hspare
  rcases hspare with htwo | ⟨-, hnone⟩
  · omega
  · refine tally_eq_zero.2 fun frame hframe => ?_
    rw [Frame.borrowed, hnone frame hframe]
    rfl

theorem step (h : Inv runtime s) {a : Action} (hs : step runtime s a = some s') :
    Inv runtime s' := by
  have hleaving := h.leaving
  have hcounter := h.counter
  have hdestructor := h.destructor
  cases a with
  | acquire thread =>
      simp only [DisposableRuntimeObject.step] at hs
      split at hs
      next t ht =>
        split at hs
        next hfree =>
          obtain rfl := Option.some.inj hs
          refine h.move ht rfl ?_ ?_ ?_ ⟨0, rfl, ?_⟩ nofun ?_ ?_
          all_goals simp only [State.setThread]
          all_goals omega
        next => cases hs
      next => cases hs
  | give thread other =>
      simp only [DisposableRuntimeObject.step] at hs
      split at hs
      next t u ht hu =>
        split at hs
        next hgive =>
          obtain rfl := Option.some.inj hs
          obtain ⟨-, hspare, hne⟩ := hgive
          have hheld := held_of_spare hspare
          have hle := le_tally Thread.held ht
          -- the other's reference comes first, so that the counter is right in between
          let both : State :=
            { s with counter := s.counter + 1 }.setThread other ⟨u.held + 1, u.stack⟩
          have hboth : Inv runtime both := by
            refine h.move hu rfl ?_ ?_ ?_ ⟨0, rfl, ?_⟩ nofun ?_ ?_
            all_goals simp only [both, State.setThread]
            all_goals omega
          have ht' : both.threads[thread]? = some t := by
            rw [← ht]
            exact List.getElem?_set_ne hne.symm
          have hcounter' := hboth.counter
          have hdestructor' := hboth.destructor
          have hleaving' := hboth.leaving
          refine hboth.move ht' (List.set_comm _ _ hne) ?_ ?_ ?_ ⟨0, rfl, ?_⟩
            (borrowed_of_spare hspare) ?_ ?_
          all_goals simp only [both, State.setThread] at hcounter' hdestructor' hleaving' ⊢
          all_goals omega
        next => cases hs
      next => cases hs
  | release thread =>
      simp only [DisposableRuntimeObject.step] at hs
      split at hs
      next t ht =>
        split at hs
        next hrelease =>
          obtain rfl := Option.some.inj hs
          have hheld := held_of_spare hrelease.2
          exact h.releaseRef ht (by omega) (fun w _ => rfl) (borrowed_of_spare hrelease.2)
        next => cases hs
      next => cases hs
  | dispose thread =>
      simp only [DisposableRuntimeObject.step] at hs
      split at hs
      next t ht =>
        split at hs
        next hheld =>
          obtain rfl := Option.some.inj hs
          refine h.move ht rfl ?_ ?_ ?_ ⟨0, rfl, ?_⟩ (fun hh => absurd hh hheld.2) ?_ ?_
          all_goals simp [State.setThread]
          all_goals omega
        next => cases hs
      next => cases hs
  | advance thread =>
      simp only [DisposableRuntimeObject.step] at hs
      split at hs
      next held frame rest ht => exact h.advance ht hs
      next => cases hs
  | invoke =>
      simp only [DisposableRuntimeObject.step] at hs
      split at hs
      next held job queue ht hq =>
        obtain rfl := Option.some.inj hs
        refine h.move ht rfl ?_ ?_ ?_ ⟨1, rfl, ?_⟩ ?_ ?_ ?_
        all_goals cases job <;> simp [State.setThread, hq]
        all_goals omega
      next => cases hs

end Inv

/-! ### The runs -/

/-- The callback has been started once at most, on the runtime thread.  When the object is freed it
has been, and has returned; no thread is in it or in a call, none is to come, and no one has a
reference.  A destructor that waits does so for a coroutine that is scheduled, that runs, or that is
done. -/
structure Closed (runtime : ℕ) (s : State) : Prop where
  once : s.started = [] ∨ s.started = [runtime]
  freed : s.freed = true → s.started = [runtime] ∧ s.finished = 1 ∧ s.queue = [] ∧
    ∀ t ∈ s.threads, t = {}
  waits : ∀ t ∈ s.threads, .waiting ∈ t.stack → .waited ∈ s.queue ∨ s.ready = true ∨
    ∃ t ∈ s.threads, .scheduledCallback .waited ∈ t.stack

theorem Inv.closed {runtime : ℕ} {s : State} (h : Inv runtime s) : Closed runtime s where
  once := by
    have hwinner := h.winner
    have hflag := flag_le s.m_isDisposed
    have hle : total Frame.running s.threads ≤ total Frame.winner s.threads :=
      total_le Frame.running_le
    rw [h.started]
    obtain hn | hn : total Frame.running s.threads + s.finished = 0 ∨
        total Frame.running s.threads + s.finished = 1 := by omega
    · exact .inl (by rw [hn]; rfl)
    · exact .inr (by rw [hn]; rfl)
  freed hf := by
    obtain ⟨-, hfinished, hqueue, hthreads⟩ := h.gone hf
    have hrunning : total Frame.running s.threads = 0 := by
      refine tally_eq_zero.2 fun t ht => ?_
      rw [hthreads t ht]
      rfl
    refine ⟨?_, hfinished, hqueue, hthreads⟩
    rw [h.started, hrunning, hfinished]
    rfl
  waits t ht hwaits := by
    have hawaits : total Frame.awaits s.threads ≠ 0 := fun hzero => by
      cases tally_eq_zero.1 (tally_eq_zero.1 hzero t ht) .waiting hwaits
    have hawaited := h.awaited
    by_cases hqueue : s.queue.count .waited = 0
    · cases hr : s.ready with
      | true => exact .inr (.inl rfl)
      | false =>
          rw [hr, flag_false] at hawaited
          have hsome : total Frame.awaited s.threads ≠ 0 := by omega
          obtain ⟨t', ht', f, hf, hne⟩ := exists_of_total hsome
          refine .inr (.inr ⟨t', ht', ?_⟩)
          cases f with
          | scheduledCallback job =>
              cases job with
              | waited => exact hf
              | detached => exact absurd rfl hne
          | _ => exact absurd rfl hne
    · exact .inl (List.count_pos_iff.1 (Nat.pos_of_ne_zero hqueue))

theorem inv_create (runtime : ℕ) {held : List ℕ} (h : 0 < held.sum) :
    Inv runtime (State.create held) := by
  have hempty : ∀ w, total w (State.create held).threads = 0 := fun w => by
    refine tally_eq_zero.2 fun t ht => ?_
    obtain ⟨n, -, rfl⟩ := List.mem_map.1 ht
    rfl
  have hheld : tally Thread.held (State.create held).threads = held.sum := by
    rw [State.create, tally_map, tally, List.map_id']
  refine ⟨?_, .inr ⟨Nat.ne_of_gt h, ?_⟩, ?_, ?_, ?_, ?_, ?_⟩
  · rw [hheld, hempty]
    rfl
  · rw [hempty]
    rfl
  · rw [hempty]
    rfl
  · rw [hempty]
    rfl
  · intro t ht _
    obtain ⟨n, -, rfl⟩ := List.mem_map.1 ht
    rfl
  · rw [hempty, hempty]
    rfl
  · rw [hempty]
    exact Nat.le_refl 0

/-- **The close callback runs once.**  In every run of the threads that refer to an object, however
they copy, hand on and release their references and call `dispose`: the callback is started once at
most, on the runtime thread; it has been when the object is freed, and nothing of it comes behind
that. -/
theorem closed_once {runtime : ℕ} {held : List ℕ} {s : State} (h₀ : 0 < held.sum)
    (h : Steps (step runtime) Free (State.create held) s) : Closed runtime s :=
  (h.invariant (P := Inv runtime) (fun hi _ hs => hi.step hs) (inv_create runtime h₀)).closed

/-- A worker disposes and lets go, and so does the runtime thread before it runs the callback. -/
def disposed : List Action :=
  [.dispose 1, .advance 1, .advance 1, .advance 1, .release 1, .release 0, .invoke, .advance 0,
    .advance 0, .advance 0, .advance 0]

theorem closed_once_disposed : ∃ s, exec (step 0) (State.create [1, 1]) disposed = some s ∧
    s.freed = true ∧ s.started = [0] ∧ Closed 0 s := by
  have hsum : 0 < [1, 1].sum := by decide
  exact ⟨_, rfl, rfl, rfl, closed_once hsum (exec_steps (allowed_free disposed _) rfl)⟩

end MyEngine.Network.DisposableRuntimeObject
