import MyEngine.Async.Resolve

/-!
# Async — Await

A coroutine that awaits a task in `TaskAwaiter::await_suspend`, the thread that resolves the task
through its `TaskSource`, and the executor that runs the scheduled continuation.  The calls on the
task are those of `Resolve`; what is added are the three references: the awaiter's in the frame of
the coroutine, the source's and the continuation's.

* `Touches`: the next operation of an action reads or writes the flags.
* `Spaced`: the last reference is not dropped while `setContinuation` is still to look at the
  flags.
* `safe_of_spaced`: then no operation touches the flags of a freed task, and a step that is not
  spaced leads where one does.
-/

namespace MyEngine.Async

/-! ### Accesses -/

/-- The next operation reads or writes the flags. -/
def Sched.touches {X C : Type} : Sched X C → Bool
  | check | load => true
  | exchange e   => !e.continuationScheduled
  | _            => false

namespace Resolve

variable {X C R : Type}

def Attempt.touches : Attempt X C R → Bool
  | begin | resolved => true
  | scheduling p     => p.touches
  | _                => false

def Installer.touches : Installer X C → Bool
  | begin               => false
  | stored | exchange _ => true
  | scheduling p        => p.touches

def Attempt.returned : Attempt X C R → Bool
  | lost | scheduling .done => true
  | _                       => false

variable {ι E : Type} {calls : Calls ι X C R E} {s s' : State ι X C R E}

/-- What an attempt leaves alone. -/
theorem stepAttempt_frame [DecidableEq ι] {i : ι} {spurious : Bool}
    (h : stepAttempt calls s i spurious = some s') :
    s'.installer = s.installer ∧ s.scheduled <+: s'.scheduled ∧
      (s.attempt i).returned = false := by
  rw [stepAttempt] at h
  rcases ha : s.attempt i with _ | _ | _ | callback | p <;> rw [ha] at h <;> dsimp only at h
  case begin =>
    split at h <;> obtain rfl := Option.some.inj h <;> exact ⟨rfl, List.prefix_rfl, rfl⟩
  case lost => cases h
  case resolved =>
    obtain rfl := Option.some.inj h
    exact ⟨rfl, List.prefix_rfl, rfl⟩
  case invoking =>
    obtain rfl := Option.some.inj h
    exact ⟨rfl, List.prefix_rfl, rfl⟩
  case scheduling =>
    obtain ⟨⟨p', task, d⟩, hstep, rfl⟩ := Option.map_eq_some_iff.1 h
    refine ⟨rfl, List.prefix_append _ _, ?_⟩
    cases p with
    | done => cases hstep
    | _ => rfl

/-- A thread in `tryScheduleContinuation` touches the flags after it touched them. -/
theorem touches_of_move {current : Option X} {t t' : CoreTask X C R E} {p p' : Sched X C}
    {d : Option (Dispatch X C)} (h : Sched.Move current t p p' t' d) (hp : p'.touches = true) :
    p.touches = true := by
  cases h with
  | failed he => simp [Sched.touches, he]
  | due | loaded => rfl
  | early | already | exchanged | taken | ran => cases hp

/-- What `setContinuation` leaves alone. -/
theorem stepInstaller_frame {spurious : Bool} (h : stepInstaller calls s spurious = some s') :
    s'.attempt = s.attempt ∧ s.scheduled <+: s'.scheduled ∧
      (s'.installer.touches = true → s.installer = .begin ∨ s.installer.touches = true) := by
  rw [stepInstaller] at h
  rcases hi : s.installer with _ | _ | e | p <;> rw [hi] at h <;> dsimp only at h
  case begin =>
    obtain rfl := Option.some.inj h
    exact ⟨rfl, List.prefix_rfl, fun _ => Or.inl rfl⟩
  case stored =>
    obtain rfl := Option.some.inj h
    exact ⟨rfl, List.prefix_rfl, fun _ => Or.inr rfl⟩
  case exchange =>
    split at h <;> obtain rfl := Option.some.inj h <;>
      exact ⟨rfl, List.prefix_rfl, fun _ => Or.inr rfl⟩
  case scheduling =>
    obtain ⟨⟨p', task, d⟩, hstep, rfl⟩ := Option.map_eq_some_iff.1 h
    exact ⟨rfl, List.prefix_append _ _,
      fun ht => Or.inr (touches_of_move (Sched.move_of_step hstep) ht)⟩

/-- An operation that touches the flags can be taken. -/
theorem stepInstaller_of_touches (h : s.installer.touches = true) (spurious : Bool) :
    ∃ s', stepInstaller calls s spurious = some s' := by
  rw [stepInstaller]
  rcases hi : s.installer with _ | _ | e | p <;> rw [hi] at h <;> dsimp only
  case begin => cases h
  case stored => exact ⟨_, rfl⟩
  case exchange =>
    split
    · exact ⟨_, rfl⟩
    · exact ⟨_, rfl⟩
  case scheduling =>
    cases p with
    | done | take | run => cases h
    | check | load => exact ⟨_, rfl⟩
    | exchange e =>
        rw [Sched.step]
        split
        · exact ⟨_, rfl⟩
        · split
          · exact ⟨_, rfl⟩
          · exact ⟨_, rfl⟩

end Resolve

namespace Await

open Runs Resolve

variable {X C R E : Type}

/-! ### The threads -/

/-- `await_suspend`: the test whether the task is ready, the request of its error, `addRef`,
`setContinuation`; or the coroutine was destroyed, and its reference with it. -/
inductive Awaiter where
  | testing
  | asking
  | referencing
  | installing
  | destroyed
  deriving DecidableEq

/-- The invocation of the continuation: `getError`, `releaseRef`, and the coroutine that goes on
or is destroyed, which drops the reference in its frame. -/
inductive Execution where
  | waiting
  | releasing
  | resuming
  | finished
  deriving DecidableEq

structure State (X C R E : Type) where
  core : Resolve.State Unit X C R E
  refsCount : Nat
  awaiter : Awaiter
  execution : Execution
  source : Bool

/-- The awaiter and the source hold a reference each. -/
def initial (calls : Calls Unit X C R E) : State X C R E where
  core := Resolve.initial calls
  refsCount := 2
  awaiter := .testing
  execution := .waiting
  source := true

inductive Action where
  | suspend
  | install (spurious : Bool)
  | resolve (spurious : Bool)
  | dropSource
  | execute
  deriving DecidableEq

/-- `await_suspend` outside of `setContinuation`. -/
def stepAwaiter (s : State X C R E) : Option (State X C R E) :=
  match s.awaiter with
  | .testing =>
      some { s with awaiter := if s.core.task.flags.ready then .asking else .referencing }
  | .asking =>
      if s.core.task.error.isSome then
        some { s with awaiter := .destroyed, refsCount := s.refsCount - 1 }
      else some { s with awaiter := .referencing }
  | .referencing => some { s with awaiter := .installing, refsCount := s.refsCount + 1 }
  | .installing | .destroyed => none

/-- The executor has something to run once the continuation was scheduled. -/
def stepExecution (s : State X C R E) : Option (State X C R E) :=
  match s.execution with
  | .waiting   =>
      if s.core.scheduled.length = 0 then none else some { s with execution := .releasing }
  | .releasing => some { s with execution := .resuming, refsCount := s.refsCount - 1 }
  | .resuming  => some { s with execution := .finished, refsCount := s.refsCount - 1 }
  | .finished  => none

def step (calls : Calls Unit X C R E) (s : State X C R E) : Action → Option (State X C R E)
  | .suspend => stepAwaiter s
  | .install spurious =>
      if s.awaiter = .installing then
        (Resolve.step calls s.core (.install spurious)).map fun core => { s with core := core }
      else none
  | .resolve spurious =>
      (Resolve.step calls s.core (.attempt () spurious)).map fun core => { s with core := core }
  | .dropSource =>
      if s.source = true ∧ (s.core.attempt ()).returned = true then
        some { s with source := false, refsCount := s.refsCount - 1 }
      else none
  | .execute => stepExecution s

/-! ### References -/

/-- The next operation of the action reads or writes the flags of the task. -/
def Touches (s : State X C R E) : Action → Prop
  | .suspend    => s.awaiter = .testing ∨ s.awaiter = .asking
  | .install _  => s.awaiter = .installing ∧ s.core.installer.touches = true
  | .resolve _  => (s.core.attempt ()).touches = true
  | .dropSource => False
  | .execute    => s.execution = .waiting

/-- The action drops a reference. -/
def Drops (s : State X C R E) : Action → Prop
  | .suspend    => s.awaiter = .asking ∧ s.core.task.error.isSome = true
  | .dropSource => True
  | .execute    => s.execution = .releasing ∨ s.execution = .resuming
  | _           => False

/-- The last reference is not dropped while the next operation of `setContinuation` is one on the
flags. -/
def Spaced (s : State X C R E) (a : Action) : Prop :=
  Drops s a → s.refsCount = 1 → ¬ Touches s (.install false)

instance (s : State X C R E) : DecidablePred (Touches s)
  | .suspend    => inferInstanceAs (Decidable (_ ∨ _))
  | .install _  => inferInstanceAs (Decidable (_ ∧ _))
  | .resolve _  => inferInstanceAs (Decidable (_ = _))
  | .dropSource => inferInstanceAs (Decidable False)
  | .execute    => inferInstanceAs (Decidable (_ = _))

instance (s : State X C R E) : DecidablePred (Drops s)
  | .suspend    => inferInstanceAs (Decidable (_ ∧ _))
  | .install _  => inferInstanceAs (Decidable False)
  | .resolve _  => inferInstanceAs (Decidable False)
  | .dropSource => inferInstanceAs (Decidable True)
  | .execute    => inferInstanceAs (Decidable (_ ∨ _))

instance (s : State X C R E) (a : Action) : Decidable (Spaced s a) :=
  inferInstanceAs (Decidable (_ → _ → _))

/-- No operation that can be taken touches the flags of a task without references. -/
def Safe (calls : Calls Unit X C R E) (s : State X C R E) : Prop :=
  ∀ a s', step calls s a = some s' → Touches s a → 0 < s.refsCount

/-- The reference in the frame of the coroutine. -/
def State.frameRef (s : State X C R E) : Nat :=
  if s.awaiter = .destroyed ∨ s.execution = .finished then 0 else 1

/-- The reference of the continuation. -/
def State.continuationRef (s : State X C R E) : Nat :=
  if s.awaiter = .installing ∧ (s.execution = .waiting ∨ s.execution = .releasing) then 1 else 0

structure Inv (calls : Calls Unit X C R E) (s : State X C R E) : Prop where
  core : ∃ w, Resolve.Inv calls s.core w
  refsCount : s.refsCount = s.frameRef + s.continuationRef + s.source.toNat
  awaiter : s.awaiter ≠ .installing → s.core.installer = .begin
  execution : s.execution ≠ .waiting → s.core.scheduled ≠ []
  source : s.source = false → (s.core.attempt ()).returned = true
  window : Touches s (.install false) → 0 < s.refsCount

theorem inv_initial (calls : Calls Unit X C R E) : Inv calls (initial calls) where
  core := ⟨none, Resolve.inv_initial calls⟩
  refsCount := rfl
  awaiter _ := rfl
  execution h := absurd rfl h
  source h := nomatch h
  window _ := Nat.zero_lt_two

namespace Inv

variable {calls : Calls Unit X C R E} {s s' : State X C R E}

/-- The executor does not run before `setContinuation` has published the continuation. -/
theorem installed (h : Inv calls s) (hs : s.core.scheduled ≠ []) :
    ∃ p, s.core.installer = .scheduling p := by
  obtain ⟨w, hcore⟩ := h.core
  obtain ⟨d, hd⟩ := List.exists_mem_of_ne_nil _ hs
  have hdue := (hcore.sound.scheduled_only d hd).2
  exact hcore.installing.hasContinuation.1 hdue.2

theorem installing (h : Inv calls s) (hs : s.core.scheduled ≠ []) : s.awaiter = .installing := by
  by_contra hne
  obtain ⟨p, hp⟩ := h.installed hs
  rw [h.awaiter hne] at hp
  cases hp

theorem waiting (h : Inv calls s) (hi : s.core.installer = .begin) : s.execution = .waiting := by
  by_contra hne
  obtain ⟨p, hp⟩ := h.installed (h.execution hne)
  rw [hi] at hp
  cases hp

theorem frameRef_pos (h : Inv calls s) (ha : s.awaiter = .testing ∨ s.awaiter = .asking) :
    0 < s.refsCount := by
  have hne : s.awaiter ≠ .installing := by
    rcases ha with ha | ha <;> rw [ha] <;> exact (nomatch ·)
  have hw := h.waiting (h.awaiter hne)
  have hframe : s.frameRef = 1 := by
    rw [State.frameRef, if_neg]
    rintro (hd | hf)
    · rcases ha with ha | ha <;> cases ha.symm.trans hd
    · cases hw.symm.trans hf
  rw [h.refsCount, hframe]
  omega

/-- The resolver has the reference of its source, the executor that of the continuation. -/
theorem safe (h : Inv calls s) : Safe calls s := by
  intro a s' hstep ht
  cases a with
  | suspend => exact h.frameRef_pos ht
  | install spurious => exact h.window ht
  | resolve spurious =>
      obtain ⟨core, hcore, -⟩ := Option.map_eq_some_iff.1 hstep
      have ⟨_, _, hret⟩ := stepAttempt_frame hcore
      have hsource : s.source = true := by
        by_contra hno
        rw [Bool.not_eq_true] at hno
        exact absurd (hret.symm.trans (h.source hno)) (by decide)
      rw [h.refsCount, hsource]
      exact Nat.succ_pos _
  | dropSource => exact ht.elim
  | execute =>
      have hw : s.execution = .waiting := ht
      have hs : s.core.scheduled ≠ [] := fun hnil => by
        rw [step, stepExecution, hw, hnil] at hstep
        cases hstep
      have hcont : s.continuationRef = 1 := if_pos ⟨h.installing hs, Or.inl hw⟩
      rw [h.refsCount, hcont]
      omega

/-- A step that drops a reference and leaves the task as it is. -/
theorem window_drop {a : Action} (h : Inv calls s) (hspaced : Spaced s a) (hd : Drops s a)
    (hcore : s'.core = s.core) (hawaiter : s'.awaiter = .installing → s.awaiter = .installing)
    (hrefs : s'.refsCount = s.refsCount - 1) :
    Touches s' (.install false) → 0 < s'.refsCount := by
  rintro ⟨ha, ht⟩
  have hbefore : Touches s (.install false) := ⟨hawaiter ha, hcore ▸ ht⟩
  have hpos := h.window hbefore
  have hne : s.refsCount ≠ 1 := fun heq => hspaced hd heq hbefore
  omega

/-- Before `setContinuation` there are the references of the frame and of the source. -/
theorem refsCount_eq (h : Inv calls s) (ha : s.awaiter ≠ .installing)
    (hd : s.awaiter ≠ .destroyed) : s.refsCount = 1 + s.source.toNat := by
  have hw := h.waiting (h.awaiter ha)
  have hframe : s.frameRef = 1 := by
    rw [State.frameRef, if_neg]
    rintro (hf | hf)
    · exact hd hf
    · cases hw.symm.trans hf
  rw [h.refsCount, hframe, State.continuationRef, if_neg fun hc => ha hc.1]

/-- The awaiter goes on before `setContinuation`. -/
theorem move_awaiter (h : Inv calls s) (ha : s.awaiter ≠ .installing)
    (hd : s.awaiter ≠ .destroyed) {awaiter : Awaiter} (ha' : awaiter ≠ .installing)
    (hd' : awaiter ≠ .destroyed) : Inv calls { s with awaiter := awaiter } := by
  have hw := h.waiting (h.awaiter ha)
  refine ⟨h.core, ?_, fun _ => h.awaiter ha, h.execution, h.source, fun ht => absurd ht.1 ha'⟩
  have hframe : State.frameRef { s with awaiter := awaiter } = 1 := by
    rw [State.frameRef, if_neg]
    rintro (hf | hf)
    · exact hd' hf
    · cases hw.symm.trans hf
  have hcont : State.continuationRef { s with awaiter := awaiter } = 0 := if_neg fun hc => ha' hc.1
  rw [hframe, hcont]
  exact h.refsCount_eq ha hd

theorem step_suspend (h : Inv calls s) (hs : stepAwaiter s = some s') : Inv calls s' := by
  rw [stepAwaiter] at hs
  rcases ha : s.awaiter with _ | _ | _ | _ | _ <;> rw [ha] at hs <;> dsimp only at hs
  case testing =>
    obtain rfl := Option.some.inj hs
    refine h.move_awaiter (by rw [ha]; exact (nomatch ·)) (by rw [ha]; exact (nomatch ·)) ?_ ?_
    · split <;> exact (nomatch ·)
    · split <;> exact (nomatch ·)
  case asking =>
    have hne : s.awaiter ≠ .installing := by rw [ha]; exact (nomatch ·)
    have hd : s.awaiter ≠ .destroyed := by rw [ha]; exact (nomatch ·)
    split at hs <;> obtain rfl := Option.some.inj hs
    · have hrefs := h.refsCount_eq hne hd
      refine ⟨h.core, ?_, fun _ => h.awaiter hne, h.execution, h.source, fun ht => nomatch ht.1⟩
      simp only [State.frameRef, State.continuationRef, true_or, if_true, reduceCtorEq, false_and,
        if_false, hrefs]
      omega
    · exact h.move_awaiter hne hd (nomatch ·) (nomatch ·)
  case referencing =>
    have hne : s.awaiter ≠ .installing := by rw [ha]; exact (nomatch ·)
    have hrefs := h.refsCount_eq hne (by rw [ha]; exact (nomatch ·))
    have hw := h.waiting (h.awaiter hne)
    obtain rfl := Option.some.inj hs
    refine ⟨h.core, ?_, fun hno => absurd rfl hno, h.execution, h.source, fun _ => Nat.succ_pos _⟩
    simp only [State.frameRef, State.continuationRef, hw, reduceCtorEq, or_self, if_false, or_false,
      true_and, if_true, hrefs]
    omega
  case installing => cases hs
  case destroyed => cases hs

/-- The operations on the task itself. -/
theorem step_core {core : Resolve.State Unit X C R E} (h : Inv calls s)
    (hcore : ∃ w, Resolve.Inv calls core w) (hscheduled : s.core.scheduled <+: core.scheduled)
    (hawaiter : s.awaiter ≠ .installing → core.installer = s.core.installer)
    (hsource : s.source = false → (core.attempt ()).returned = true)
    (hwindow : s.awaiter = .installing → core.installer.touches = true → 0 < s.refsCount) :
    Inv calls { s with core := core } where
  core := hcore
  refsCount := h.refsCount
  awaiter ha := (hawaiter ha).trans (h.awaiter ha)
  execution he hnil := h.execution he (List.prefix_nil.1 (hnil ▸ hscheduled))
  source := hsource
  window ht := hwindow ht.1 ht.2

theorem step_execute (h : Inv calls s) (hspaced : Spaced s .execute)
    (hs : stepExecution s = some s') : Inv calls s' := by
  rw [stepExecution] at hs
  rcases he : s.execution with _ | _ | _ | _ <;> rw [he] at hs <;> dsimp only at hs
  case waiting =>
    split at hs
    case isTrue => cases hs
    case isFalse hne =>
      obtain rfl := Option.some.inj hs
      have hrefs := h.refsCount
      refine ⟨h.core, ?_, h.awaiter, fun _ hnil => hne (hnil ▸ rfl), h.source, h.window⟩
      simpa [State.frameRef, State.continuationRef, he] using hrefs
  case releasing =>
    obtain rfl := Option.some.inj hs
    have hsched : s.core.scheduled ≠ [] := h.execution (by rw [he]; exact (nomatch ·))
    have ha := h.installing hsched
    refine ⟨h.core, ?_, h.awaiter, fun _ => hsched, h.source,
      h.window_drop hspaced (Or.inl he) rfl id rfl⟩
    have hrefs := h.refsCount
    simp only [State.frameRef, State.continuationRef, he, ha, reduceCtorEq, or_self, or_true,
      if_false, and_self, and_false, if_true] at hrefs ⊢
    omega
  case resuming =>
    obtain rfl := Option.some.inj hs
    have hsched : s.core.scheduled ≠ [] := h.execution (by rw [he]; exact (nomatch ·))
    have ha := h.installing hsched
    refine ⟨h.core, ?_, h.awaiter, fun _ => hsched, h.source,
      h.window_drop hspaced (Or.inr he) rfl id rfl⟩
    have hrefs := h.refsCount
    simp only [State.frameRef, State.continuationRef, he, ha, reduceCtorEq, or_self, or_true,
      if_false, and_false, if_true] at hrefs ⊢
    omega
  case finished => cases hs

theorem step_spaced {a : Action} (h : Inv calls s) (hspaced : Spaced s a)
    (hs : step calls s a = some s') : Inv calls s' := by
  obtain ⟨w, hcore⟩ := h.core
  cases a with
  | suspend => exact h.step_suspend hs
  | install spurious =>
      rw [step] at hs
      split at hs
      case isFalse => cases hs
      case isTrue ha =>
        obtain ⟨core, hstep, rfl⟩ := Option.map_eq_some_iff.1 hs
        have ⟨hattempt, hscheduled, htouches⟩ := stepInstaller_frame hstep
        refine h.step_core ⟨w, hcore.step_installer hstep⟩ hscheduled (fun hne => absurd ha hne)
          (fun hno => by rw [hattempt, h.source hno]) fun _ ht => ?_
        rcases htouches ht with hb | ht
        · -- nothing runs before the continuation is stored
          rw [h.refsCount, State.continuationRef, if_pos ⟨ha, Or.inl (h.waiting hb)⟩]
          omega
        · exact h.window ⟨ha, ht⟩
  | resolve spurious =>
      obtain ⟨core, hstep, rfl⟩ := Option.map_eq_some_iff.1 hs
      have ⟨hinstaller, hscheduled, hreturned⟩ := stepAttempt_frame hstep
      obtain ⟨w', hcore', -⟩ := hcore.step_attempt hstep
      refine h.step_core ⟨w', hcore'⟩ hscheduled (fun _ => hinstaller) (fun hno => ?_)
        fun ha ht => h.window ⟨ha, hinstaller ▸ ht⟩
      exact absurd (hreturned.symm.trans (h.source hno)) (by decide)
  | dropSource =>
      rw [step] at hs
      split at hs
      case isFalse => cases hs
      case isTrue hdone =>
        obtain rfl := Option.some.inj hs
        refine ⟨h.core, ?_, h.awaiter, h.execution, fun _ => hdone.2,
          h.window_drop hspaced trivial rfl id rfl⟩
        have hrefs := h.refsCount
        rw [hdone.1] at hrefs
        dsimp only
        rw [hrefs]
        rfl
  | execute => exact h.step_execute hspaced hs

end Inv

section

variable {calls : Calls Unit X C R E} {s s' : State X C R E}

theorem drop_step {a : Action} (hd : Drops s a) (hs : step calls s a = some s') :
    s'.refsCount = s.refsCount - 1 ∧ s'.core = s.core ∧
      (s.awaiter = .installing → s'.awaiter = .installing) := by
  cases a with
  | suspend =>
      rw [step, stepAwaiter, hd.1] at hs
      dsimp only at hs
      rw [if_pos hd.2] at hs
      obtain rfl := Option.some.inj hs
      exact ⟨rfl, rfl, fun hi => nomatch hd.1.symm.trans hi⟩
  | install => exact hd.elim
  | resolve => exact hd.elim
  | dropSource =>
      rw [step] at hs
      split at hs
      case isFalse => cases hs
      case isTrue =>
        obtain rfl := Option.some.inj hs
        exact ⟨rfl, rfl, id⟩
  | execute =>
      rcases hd with he | he <;> rw [step, stepExecution, he] at hs <;>
        obtain rfl := Option.some.inj hs <;> exact ⟨rfl, rfl, id⟩

/-- The step that drops the last reference too early leaves `setContinuation` with an operation
on the flags of a freed task. -/
theorem not_safe {a : Action} (hs : step calls s a = some s') (hspaced : ¬ Spaced s a) :
    ¬ Safe calls s' := by
  intro hsafe
  simp only [Spaced, Classical.not_imp, Classical.not_not] at hspaced
  obtain ⟨hd, hone, ha, ht⟩ := hspaced
  obtain ⟨hrefs, hcore, hawaiter⟩ := drop_step hd hs
  have ht' : Touches s' (.install false) := ⟨hawaiter ha, hcore ▸ ht⟩
  obtain ⟨core, hstep⟩ : ∃ core, stepInstaller calls s'.core false = some core :=
    stepInstaller_of_touches ht'.2 false
  have hnext : step calls s' (.install false) = some { s' with core := core } := by
    rw [step, if_pos ht'.1, Resolve.step, hstep]
    rfl
  have hpos := hsafe _ _ hnext ht'
  omega

end

/-- As long as the last reference is dropped outside of the window of `setContinuation`, no
operation touches the flags of a freed task; and a step that drops it inside leads to a state
where one does. -/
theorem safe_of_spaced (calls : Calls Unit X C R E) {s : State X C R E}
    (h : Steps (step calls) Spaced (initial calls) s) :
    Safe calls s ∧ ∀ a s', step calls s a = some s' → (Spaced s a ↔ Safe calls s') := by
  have hinv : Inv calls s :=
    h.invariant (fun hi hspaced hs => hi.step_spaced hspaced hs) (inv_initial calls)
  refine ⟨hinv.safe, fun a s' hs => ⟨fun hspaced => (hinv.step_spaced hspaced hs).safe, ?_⟩⟩
  intro hsafe
  by_contra hno
  exact not_safe hs hno hsafe

/-- A task that is resolved without an error, with an executor for the continuation. -/
def plain : Calls Unit Unit Unit Unit Unit where
  resolver _ := none
  continuation := ⟨some (), ()⟩
  readyCallback := ()
  isContinueOnCapturedExecutor := true
  attemptExecutor _ := none
  installExecutor := none

/-- `await_suspend` up to the moment the continuation is published. -/
def published : List Action :=
  [.suspend, .suspend, .install false, .install false, .install false]

/-- The resolver comes, and schedules the continuation. -/
def scheduledBy : List Action := List.replicate 8 (.resolve false)

/-- The executor runs the continuation, and `setContinuation` ends before the source is dropped. -/
theorem plain_safe :
    ∃ s, exec (step plain) (initial plain) (published ++ scheduledBy ++
        [.execute, .execute, .execute, .install false, .install false, .install false,
          .dropSource]) = some s ∧ s.refsCount = 0 ∧ Safe plain s := by
  obtain ⟨s, hs, hrefs⟩ : ∃ s, exec (step plain) (initial plain) (published ++ scheduledBy ++
      [.execute, .execute, .execute, .install false, .install false, .install false,
        .dropSource]) = some s ∧ s.refsCount = 0 := ⟨_, rfl, rfl⟩
  exact ⟨s, hs, hrefs, (safe_of_spaced plain (exec_steps (by decide) hs)).1⟩

/-- The executor and the resolver drop the three references before `setContinuation` looks at the
flags again. -/
theorem plain_unsafe :
    ∃ s s', Steps (step plain) Free (initial plain) s ∧
      step plain s (.install false) = some s' ∧ Touches s (.install false) ∧ s.refsCount = 0 := by
  obtain ⟨s, s', hs, hnext, ht, hrefs⟩ : ∃ s s', exec (step plain) (initial plain)
      (published ++ scheduledBy ++ [.execute, .execute, .execute, .dropSource]) = some s ∧
      step plain s (.install false) = some s' ∧ Touches s (.install false) ∧ s.refsCount = 0 :=
    ⟨_, _, rfl, rfl, ⟨rfl, rfl⟩, rfl⟩
  exact ⟨s, s', exec_steps (allowed_free _ _) hs, hnext, ht, hrefs⟩

end Await

end MyEngine.Async
