import Mathlib.Logic.Function.Basic
import Mathlib.Data.Set.Function
import MyEngine.Async.CoreTask

/-!
# Async — Resolve

One task, any number of attempts to resolve it, one `setContinuation` and one
`setReadyCallback`, each on a thread of its own.

* `step`: the threads, one atomic operation or one section at a time.
* `Inv`: what every run keeps, for the attempt that made the task ready, if any.
* `resolve_sound`: one attempt wins, and the continuation and the ready callback run once.
-/

namespace MyEngine.Async.Resolve

open Runs

variable {ι X C R E : Type}

/-- What the calls are given: for each attempt what its resolver callback does, the
continuation, the ready callback, and for each thread its current executor. -/
structure Calls (ι X C R E : Type) where
  resolver : ι → Option (Option E)
  continuation : TaskContinuation X C
  readyCallback : R
  isContinueOnCapturedExecutor : Bool
  attemptExecutor : ι → Option X
  installExecutor : Option X

/-- `tryResolveInternal`: before its section, with `false` to return, before the section of
`invokeReadyCallback`, before the call of what it took, and in `tryScheduleContinuation`, behind
which it returns `true`. -/
inductive Attempt (X C R : Type) where
  | begin
  | lost
  | resolved
  | invoking (callback : Option R)
  | scheduling (p : Sched X C)
  deriving DecidableEq

/-- `setContinuation`: the store, `setFlagsOnce` with its load and its compare-exchange, and
`tryScheduleContinuation`. -/
inductive Installer (X C : Type) where
  | begin
  | stored
  | exchange (expected : Flags)
  | scheduling (p : Sched X C)
  deriving DecidableEq

/-- `setReadyCallback`. -/
inductive Registrar (R : Type) where
  | begin
  | invoking (callback : Option R)
  | done
  deriving DecidableEq

structure State (ι X C R E : Type) where
  task : CoreTask X C R E
  attempt : ι → Attempt X C R
  installer : Installer X C
  registrar : Registrar R
  scheduled : List (Dispatch X C)
  invoked : List R

/-- The next operation of a thread; `spurious` makes a compare-exchange fail. -/
inductive Action (ι : Type) where
  | attempt (i : ι) (spurious : Bool)
  | install (spurious : Bool)
  | register
  deriving DecidableEq

def initial (calls : Calls ι X C R E) : State ι X C R E where
  task := { isContinueOnCapturedExecutor := calls.isContinueOnCapturedExecutor }
  attempt _ := .begin
  installer := .begin
  registrar := .begin
  scheduled := []
  invoked := []

section

variable [DecidableEq ι] (calls : Calls ι X C R E)

def stepAttempt (s : State ι X C R E) (i : ι) (spurious : Bool) : Option (State ι X C R E) :=
  match s.attempt i with
  | .begin =>
      match s.task.tryResolve (calls.resolver i) with
      | none      => some { s with attempt := Function.update s.attempt i .lost }
      | some task =>
          some { s with task := task, attempt := Function.update s.attempt i .resolved }
  | .lost => none
  | .resolved =>
      some { s with
        task := s.task.takeReadyCallback.2
        attempt := Function.update s.attempt i (.invoking s.task.takeReadyCallback.1) }
  | .invoking callback =>
      some { s with
        invoked := s.invoked ++ callback.toList
        attempt := Function.update s.attempt i (.scheduling .check) }
  | .scheduling p =>
      (p.step (calls.attemptExecutor i) spurious s.task).map fun (p, task, d) =>
        { s with
          task := task
          scheduled := s.scheduled ++ d.toList
          attempt := Function.update s.attempt i (.scheduling p) }

def stepInstaller (s : State ι X C R E) (spurious : Bool) : Option (State ι X C R E) :=
  match s.installer with
  | .begin =>
      some { s with
        task := { s.task with continuation := some (s.task.captured calls.continuation) }
        installer := .stored }
  | .stored => some { s with installer := .exchange s.task.flags }
  | .exchange e =>
      if s.task.flags = e ∧ spurious = false then
        some { s with
          task := { s.task with flags := { e with hasContinuation := true } }
          installer := .scheduling .check }
      else some { s with installer := .exchange s.task.flags }
  | .scheduling p =>
      (p.step calls.installExecutor spurious s.task).map fun (p, task, d) =>
        { s with
          task := task
          scheduled := s.scheduled ++ d.toList
          installer := .scheduling p }

def stepRegistrar (s : State ι X C R E) : Option (State ι X C R E) :=
  match s.registrar with
  | .begin =>
      some { s with
        task := (s.task.setReadyCallback (some calls.readyCallback)).2
        registrar := .invoking (s.task.setReadyCallback (some calls.readyCallback)).1 }
  | .invoking callback =>
      some { s with invoked := s.invoked ++ callback.toList, registrar := .done }
  | .done => none

def step (s : State ι X C R E) : Action ι → Option (State ι X C R E)
  | .attempt i spurious => stepAttempt calls s i spurious
  | .install spurious   => stepInstaller calls s spurious
  | .register           => stepRegistrar calls s

end

/-! ### What a run keeps -/

/-- The attempt found the task not ready. -/
def Attempt.Won : Attempt X C R → Prop
  | begin | lost => False
  | _            => True

/-- Where the attempt stands in `tryScheduleContinuation`, from the moment on it will come
there. -/
def Attempt.sched : Attempt X C R → Sched X C
  | begin | lost          => .done
  | resolved | invoking _ => .check
  | scheduling p          => p

def Installer.sched : Installer X C → Sched X C
  | scheduling p => p
  | _            => .check

/-- The callback the attempt holds. -/
def Attempt.callback : Attempt X C R → Option R
  | invoking callback => callback
  | _                 => none

def Registrar.callback : Registrar R → Option R
  | invoking callback => callback
  | _                 => none

/-- The callback the registrar was given, once it has been in its section. -/
def Registrar.given (r : R) : Registrar R → List R
  | begin => []
  | _     => [r]

/-- The ready callback is in one place: with the task, with one of the threads, or called.
`attempt` is the one that made the task ready. -/
structure Callbacks (r : R) (t : CoreTask X C R E) (invoked : List R) (attempt : Attempt X C R)
    (registrar : Registrar R) : Prop where
  one : (t.readyCallback.toList ++ attempt.callback.toList ++ registrar.callback.toList ++
    invoked).Perm (registrar.given r)
  taken : attempt.Won → attempt ≠ .resolved → t.readyCallback = none
  ready : attempt.callback.toList ++ registrar.callback.toList ++ invoked ≠ [] →
    t.flags.ready = true

namespace Callbacks

variable {r : R} {t t' : CoreTask X C R E} {invoked : List R} {attempt : Attempt X C R}
  {registrar : Registrar R}

/-- The section of an attempt that finds the task not ready. -/
theorem resolve (h : Callbacks r t invoked .begin registrar)
    (hcallback : t'.readyCallback = t.readyCallback) (hready : t'.flags.ready = true) :
    Callbacks r t' invoked .resolved registrar where
  one := by
    rw [hcallback]
    exact h.one
  taken _ hne := absurd rfl hne
  ready _ := hready

theorem take (h : Callbacks r t invoked .resolved registrar) (hready : t.flags.ready = true) :
    Callbacks r t.takeReadyCallback.2 invoked (.invoking t.takeReadyCallback.1) registrar where
  one := by simpa [CoreTask.takeReadyCallback, Attempt.callback] using h.one
  taken _ _ := rfl
  ready _ := hready

theorem invoke {callback : Option R} (h : Callbacks r t invoked (.invoking callback) registrar)
    (hready : t.flags.ready = true) :
    Callbacks r t (invoked ++ callback.toList) (.scheduling .check) registrar where
  one := by
    refine List.Perm.trans ?_ h.one
    simp only [Attempt.callback, Option.toList_none, List.append_nil, List.append_assoc]
    refine List.Perm.append_left _ ?_
    rw [← List.append_assoc]
    exact List.perm_append_comm
  taken _ _ := h.taken trivial (nomatch ·)
  ready _ := hready

theorem congr (h : Callbacks r t invoked attempt registrar)
    (hcallback : t'.readyCallback = t.readyCallback) (hready : t'.flags.ready = t.flags.ready) :
    Callbacks r t' invoked attempt registrar where
  one := by
    rw [hcallback]
    exact h.one
  taken hw hne := hcallback.trans (h.taken hw hne)
  ready hne := hready.trans (h.ready hne)

/-- In `tryScheduleContinuation` nothing happens to the callback. -/
theorem scheduling {p : Sched X C} (h : Callbacks r t invoked (.scheduling p) registrar)
    (p' : Sched X C) : Callbacks r t invoked (.scheduling p') registrar :=
  ⟨h.one, fun _ _ => h.taken trivial (nomatch ·), h.ready⟩

/-- The section of `setReadyCallback`. -/
theorem register (h : Callbacks r t invoked attempt .begin)
    (hwon : attempt.Won ↔ t.flags.ready = true) :
    Callbacks r (t.setReadyCallback (some r)).2 invoked attempt
      (.invoking (t.setReadyCallback (some r)).1) := by
  have hnil := List.Perm.eq_nil h.one
  simp only [Registrar.callback, Option.toList_none, List.append_nil,
    List.append_eq_nil_iff] at hnil
  obtain ⟨⟨hcallback, hattempt⟩, hinvoked⟩ := hnil
  unfold CoreTask.setReadyCallback
  by_cases hr : t.flags.ready = true
  · rw [if_pos hr]
    exact ⟨by simp [Registrar.callback, Registrar.given, hcallback, hattempt, hinvoked],
      h.taken, fun _ => hr⟩
  · rw [if_neg hr]
    exact ⟨by simp [Registrar.callback, Registrar.given, hattempt, hinvoked],
      fun hw => absurd (hwon.1 hw) hr,
      fun hne => absurd (by simp [Registrar.callback, hattempt, hinvoked]) hne⟩

theorem called {callback : Option R} (h : Callbacks r t invoked attempt (.invoking callback)) :
    Callbacks r t (invoked ++ callback.toList) attempt .done where
  one := by
    refine List.Perm.trans ?_ h.one
    simp only [Registrar.callback, Option.toList_none, List.append_nil, List.append_assoc]
    exact List.Perm.append_left _ (List.Perm.append_left _ List.perm_append_comm)
  taken := h.taken
  ready hne := by
    refine h.ready fun hnil => hne ?_
    simp_all [Registrar.callback]

end Callbacks

/-- What `setContinuation` did so far. -/
structure Installing (c : TaskContinuation X C) (t : CoreTask X C R E)
    (installer : Installer X C) : Prop where
  hasContinuation : t.flags.hasContinuation = true ↔ ∃ p, installer = .scheduling p
  stored : t.flags.hasContinuation = false → installer ≠ .begin → t.continuation = some c

theorem Installing.congr {c : TaskContinuation X C} {t t' : CoreTask X C R E}
    {installer : Installer X C} (h : Installing c t installer)
    (hhas : t'.flags.hasContinuation = t.flags.hasContinuation)
    (hc : t.flags.hasContinuation = false → t'.continuation = t.continuation) :
    Installing c t' installer where
  hasContinuation := by rw [hhas, h.hasContinuation]
  stored hno hne := by
    rw [hhas] at hno
    rw [hc hno, h.stored hno hne]

/-- What `setContinuation` leaves in the task. -/
def Calls.stored (calls : Calls ι X C R E) : TaskContinuation X C :=
  (initial calls).task.captured calls.continuation

/-- The attempt `w` made the task ready, or none has yet. -/
structure Inv (calls : Calls ι X C R E) (s : State ι X C R E) (w : Option ι) : Prop where
  others : ∀ i, some i ≠ w → s.attempt i = .begin ∨ s.attempt i = .lost ∧ w.isSome = true
  won : ∀ i, w = some i → (s.attempt i).Won
  ready : s.task.flags.ready = w.isSome
  error : s.task.error = w.bind fun i => (calls.resolver i).getD none
  executor : s.task.isContinueOnCapturedExecutor = calls.isContinueOnCapturedExecutor
  installing : Installing calls.stored s.task s.installer
  scheduling : Scheduling calls.stored s.task s.scheduled (w.elim .begin s.attempt).sched
    s.installer.sched
  callbacks : Callbacks calls.readyCallback s.task s.invoked (w.elim .begin s.attempt)
    s.registrar

theorem inv_initial (calls : Calls ι X C R E) : Inv calls (initial calls) none where
  others _ _ := Or.inl rfl
  won _ h := nomatch h
  ready := rfl
  error := rfl
  executor := rfl
  installing := ⟨⟨(nomatch ·), fun ⟨_, h⟩ => nomatch h⟩, fun _ h => absurd rfl h⟩
  scheduling :=
    { due := by rintro (h | h | h) <;> cases h
      stale := by rintro e (h | h) <;> cases h
      owning := rfl
      pending := fun h => nomatch h.1
      kept := fun h => nomatch h
      carried := by rintro c (h | h) <;> cases h
      invocation := fun _ h => nomatch h }
  callbacks := ⟨.refl _, fun h => h.elim, fun h => absurd rfl h⟩

namespace Inv

variable {calls : Calls ι X C R E} {s s' : State ι X C R E} {w : Option ι}

/-- An attempt that is not at its beginning and has not lost is the one that won. -/
theorem eq_of_won (h : Inv calls s w) {i : ι} (hi : (s.attempt i).Won) : w = some i := by
  by_contra hne
  rcases h.others i (Ne.symm hne) with hb | ⟨hl, -⟩
  · rw [hb] at hi
    exact hi
  · rw [hl] at hi
    exact hi

section

variable [DecidableEq ι]

theorem elim_update_ne {i : ι} (hne : some i ≠ w) (a : Attempt X C R) :
    w.elim .begin (Function.update s.attempt i a) = w.elim .begin s.attempt := by
  cases w with
  | none => rfl
  | some j => exact Function.update_of_ne (fun h => hne (congrArg some h.symm)) a s.attempt

/-- The winner goes on; what it does to the task is the business of the last three
hypotheses. -/
theorem winner_step {i : ι} {a : Attempt X C R} {task : CoreTask X C R E}
    {scheduled : List (Dispatch X C)} {invoked : List R} (h : Inv calls s (some i))
    (ha : a.Won) (hready : task.flags.ready = s.task.flags.ready)
    (herror : task.error = s.task.error)
    (hexecutor : task.isContinueOnCapturedExecutor = s.task.isContinueOnCapturedExecutor)
    (hi : Installing calls.stored task s.installer)
    (hs : Scheduling calls.stored task scheduled a.sched s.installer.sched)
    (hc : Callbacks calls.readyCallback task invoked a s.registrar) :
    Inv calls { s with
      task := task, attempt := Function.update s.attempt i a, scheduled := scheduled
      invoked := invoked } (some i) where
  others j hj := by
    have hne : j ≠ i := fun he => hj (congrArg some he)
    dsimp only
    rw [Function.update_of_ne hne]
    exact h.others j hj
  won j hj := by
    obtain rfl := Option.some.inj hj
    dsimp only
    rwa [Function.update_self]
  ready := hready.trans h.ready
  error := herror.trans h.error
  executor := hexecutor.trans h.executor
  installing := hi
  scheduling := by
    dsimp only [Option.elim_some]
    rwa [Function.update_self]
  callbacks := by
    dsimp only [Option.elim_some]
    rwa [Function.update_self]

theorem lose {i : ι} (h : Inv calls s w) (hi : s.attempt i = .begin)
    (hr : s.task.flags.ready = true) :
    Inv calls { s with attempt := Function.update s.attempt i .lost } w := by
  have hne : some i ≠ w := fun he => by
    have := h.won i he.symm
    rw [hi] at this
    exact this
  refine ⟨fun j hj => ?_, fun j hj => ?_, h.ready, h.error, h.executor, h.installing, ?_, ?_⟩
  · dsimp only
    by_cases hij : j = i
    · rw [hij, Function.update_self]
      exact Or.inr ⟨rfl, h.ready ▸ hr⟩
    · rw [Function.update_of_ne hij]
      exact h.others j hj
  · dsimp only
    rw [Function.update_of_ne fun hij : j = i => hne (hij ▸ hj.symm)]
    exact h.won j hj
  · dsimp only
    rw [elim_update_ne hne]
    exact h.scheduling
  · dsimp only
    rw [elim_update_ne hne]
    exact h.callbacks

theorem win (i : ι) (h : Inv calls s w) (hr : s.task.flags.ready = false) :
    Inv calls { s with
      task := { s.task with
        error := (calls.resolver i).getD s.task.error
        flags := { s.task.flags with ready := true } }
      attempt := Function.update s.attempt i .resolved } (some i) := by
  obtain rfl : w = none := by
    have := h.ready.symm.trans hr
    simpa using this
  refine ⟨fun j hj => ?_, fun j hj => ?_, rfl, ?_, h.executor, ?_, ?_, ?_⟩
  · dsimp only
    rw [Function.update_of_ne fun hij => hj (congrArg some hij)]
    exact Or.inl ((h.others j nofun).resolve_right fun hl => nomatch hl.2)
  · obtain rfl := Option.some.inj hj
    dsimp only
    rw [Function.update_self]
    trivial
  · dsimp only
    rw [show s.task.error = none from h.error]
    rfl
  · exact h.installing.congr rfl fun _ => rfl
  · dsimp only [Option.elim_some]
    rw [Function.update_self]
    exact h.scheduling.ready.congr rfl fun _ => rfl
  · dsimp only [Option.elim_some]
    rw [Function.update_self]
    exact h.callbacks.resolve rfl rfl

theorem step_attempt {i : ι} {spurious : Bool} (h : Inv calls s w)
    (hs : stepAttempt calls s i spurious = some s') :
    ∃ w', Inv calls s' w' ∧ ∀ j, w = some j → w' = some j := by
  rw [stepAttempt] at hs
  rcases ha : s.attempt i with _ | _ | _ | callback | p
  case begin =>
    rw [ha] at hs
    dsimp only at hs
    rw [CoreTask.tryResolve] at hs
    by_cases hr : s.task.flags.ready = true
    · rw [if_pos hr] at hs
      obtain rfl := Option.some.inj hs
      exact ⟨w, h.lose ha hr, fun _ => id⟩
    · rw [if_neg hr] at hs
      rw [Bool.not_eq_true] at hr
      obtain rfl := Option.some.inj hs
      refine ⟨some i, h.win i hr, fun j hj => ?_⟩
      have := h.ready.symm.trans hr
      rw [hj] at this
      cases this
  case lost =>
    rw [ha] at hs
    cases hs
  case resolved =>
    rw [ha] at hs
    obtain rfl := Option.some.inj hs
    obtain rfl := h.eq_of_won (by rw [ha]; trivial)
    have hsched := h.scheduling
    have hcall := h.callbacks
    rw [Option.elim_some, ha] at hsched hcall
    exact ⟨some i, h.winner_step trivial rfl rfl rfl (h.installing.congr rfl fun _ => rfl)
      (hsched.congr rfl fun _ => rfl) (hcall.take h.ready), fun _ => id⟩
  case invoking =>
    rw [ha] at hs
    obtain rfl := Option.some.inj hs
    obtain rfl := h.eq_of_won (by rw [ha]; trivial)
    have hsched := h.scheduling
    have hcall := h.callbacks
    rw [Option.elim_some, ha] at hsched hcall
    exact ⟨some i, h.winner_step trivial rfl rfl rfl h.installing hsched (hcall.invoke h.ready),
      fun _ => id⟩
  case scheduling =>
    rw [ha] at hs
    obtain ⟨⟨p', task, d⟩, hstep, rfl⟩ := Option.map_eq_some_iff.1 hs
    obtain rfl := h.eq_of_won (by rw [ha]; trivial)
    have hsched := h.scheduling
    have hcall := h.callbacks
    rw [Option.elim_some, ha] at hsched hcall
    have hmove := Sched.move_of_step hstep
    have hframe := hmove.frame
    refine ⟨some i, h.winner_step trivial hframe.ready hframe.error hframe.executor ?_
      (hsched.move hmove) ((hcall.scheduling p').congr hframe.readyCallback hframe.ready),
      fun _ => id⟩
    refine h.installing.congr hframe.hasContinuation fun hno => hframe.continuation ?_
    -- the continuation is taken only after it was installed
    rintro rfl
    have hdue := hsched.due (Or.inr (Or.inl trivial))
    exact absurd (hno.symm.trans hdue.2) (by decide)

end

/-- The store of the continuation. -/
theorem store (h : Inv calls s w) (hi : s.installer = .begin) :
    Inv calls { s with
      task := { s.task with continuation := some (s.task.captured calls.continuation) }
      installer := .stored } w := by
  have hno : s.task.flags.hasContinuation = false := by
    by_contra hhas
    rw [Bool.not_eq_false] at hhas
    obtain ⟨p, hp⟩ := h.installing.hasContinuation.1 hhas
    rw [hi] at hp
    cases hp
  have hstored : s.task.captured calls.continuation = calls.stored := by
    rw [CoreTask.captured, h.executor]
    rfl
  have hsched := h.scheduling
  rw [hi] at hsched
  refine ⟨h.others, h.won, h.ready, h.error, h.executor, ⟨?_, ?_⟩, ?_, ?_⟩
  · refine ⟨fun hhas => absurd (hno.symm.trans hhas) (by decide), ?_⟩
    rintro ⟨p, hp⟩
    cases hp
  · exact fun _ _ => congrArg some hstored
  · exact hsched.congr rfl fun hhas => absurd (hno.symm.trans hhas) (by decide)
  · exact h.callbacks.congr rfl rfl

/-- The operations of `setFlagsOnce` before it succeeds. -/
theorem reload (h : Inv calls s w) {e : Flags} (hne : s.installer ≠ .begin)
    (hno : ∀ p, s.installer ≠ .scheduling p) : Inv calls { s with installer := .exchange e } w := by
  have hhas : s.task.flags.hasContinuation ≠ true := fun hhas => by
    obtain ⟨p, hp⟩ := h.installing.hasContinuation.1 hhas
    exact hno p hp
  have hsched := h.scheduling
  have hcheck : s.installer.sched = .check := by
    rcases hp : s.installer with _ | _ | _ | p
    case scheduling => exact absurd hp (hno p)
    all_goals rfl
  rw [hcheck] at hsched
  refine ⟨h.others, h.won, h.ready, h.error, h.executor, ⟨?_, ?_⟩, hsched, h.callbacks⟩
  · exact ⟨fun hh => absurd hh hhas, fun ⟨_, hp⟩ => nomatch hp⟩
  · exact fun hf _ => h.installing.stored hf hne

/-- `setFlagsOnce` succeeds: its assertion, that the flag was not set, holds. -/
theorem install (h : Inv calls s w) (hi : s.installer = .exchange s.task.flags) :
    Inv calls { s with
      task := { s.task with flags := { s.task.flags with hasContinuation := true } }
      installer := .scheduling .check } w := by
  have hno : s.task.flags.hasContinuation = false := by
    by_contra hhas
    rw [Bool.not_eq_false] at hhas
    obtain ⟨p, hp⟩ := h.installing.hasContinuation.1 hhas
    rw [hi] at hp
    cases hp
  have hsched := h.scheduling
  rw [hi] at hsched
  have hstored := h.installing.stored hno (by rw [hi]; exact (nomatch ·))
  refine ⟨h.others, h.won, h.ready, h.error, h.executor, ⟨?_, ?_⟩, ?_, ?_⟩
  · exact ⟨fun _ => ⟨_, rfl⟩, fun _ => rfl⟩
  · exact fun hf => nomatch hf
  · exact hsched.install hno hstored
  · exact h.callbacks.congr rfl rfl

theorem step_installer {spurious : Bool} (h : Inv calls s w)
    (hs : stepInstaller calls s spurious = some s') : Inv calls s' w := by
  rw [stepInstaller] at hs
  rcases hi : s.installer with _ | _ | e | p
  case begin =>
    rw [hi] at hs
    obtain rfl := Option.some.inj hs
    exact h.store hi
  case stored =>
    rw [hi] at hs
    obtain rfl := Option.some.inj hs
    exact h.reload (by rw [hi]; exact (nomatch ·)) fun p hp => nomatch hi.symm.trans hp
  case exchange =>
    rw [hi] at hs
    dsimp only at hs
    by_cases he : s.task.flags = e ∧ spurious = false
    · rw [if_pos he] at hs
      obtain ⟨rfl, -⟩ := he
      obtain rfl := Option.some.inj hs
      exact h.install hi
    · rw [if_neg he] at hs
      obtain rfl := Option.some.inj hs
      exact h.reload (by rw [hi]; exact (nomatch ·)) fun p hp => nomatch hi.symm.trans hp
  case scheduling =>
    rw [hi] at hs
    obtain ⟨⟨p', task, d⟩, hstep, rfl⟩ := Option.map_eq_some_iff.1 hs
    have hsched := h.scheduling
    rw [hi] at hsched
    have hmove := Sched.move_of_step hstep
    have hframe := hmove.frame
    have hhas := h.installing.hasContinuation.2 ⟨p, hi⟩
    refine ⟨h.others, h.won, hframe.ready.trans h.ready, hframe.error.trans h.error,
      hframe.executor.trans h.executor, ⟨?_, ?_⟩, (hsched.symm.move hmove).symm,
      h.callbacks.congr hframe.readyCallback hframe.ready⟩
    · exact ⟨fun _ => ⟨_, rfl⟩, fun _ => hframe.hasContinuation.trans hhas⟩
    · exact fun hf => absurd (hf.symm.trans (hframe.hasContinuation.trans hhas)) (by decide)

theorem step_registrar (h : Inv calls s w) (hs : stepRegistrar calls s = some s') :
    Inv calls s' w := by
  rw [stepRegistrar] at hs
  rcases hr : s.registrar with _ | callback | _
  case begin =>
    rw [hr] at hs
    obtain rfl := Option.some.inj hs
    have hcall := h.callbacks
    rw [hr] at hcall
    have hwon : (w.elim .begin s.attempt).Won ↔ s.task.flags.ready = true := by
      rw [h.ready]
      cases w with
      | none => exact ⟨fun hf => hf.elim, (nomatch ·)⟩
      | some i => exact ⟨fun _ => rfl, fun _ => h.won i rfl⟩
    have hframe : ∀ t : CoreTask X C R E,
        (t.setReadyCallback (some calls.readyCallback)).2.flags = t.flags ∧
        (t.setReadyCallback (some calls.readyCallback)).2.error = t.error ∧
        (t.setReadyCallback (some calls.readyCallback)).2.continuation = t.continuation ∧
        (t.setReadyCallback (some calls.readyCallback)).2.isContinueOnCapturedExecutor =
          t.isContinueOnCapturedExecutor := by
      intro t
      unfold CoreTask.setReadyCallback
      split <;> exact ⟨rfl, rfl, rfl, rfl⟩
    have ⟨hflags, herror, hcont, hexec⟩ := hframe s.task
    refine ⟨h.others, h.won, (congrArg Flags.ready hflags).trans h.ready, herror.trans h.error,
      hexec.trans h.executor, ?_, ?_, hcall.register hwon⟩
    · exact h.installing.congr (congrArg Flags.hasContinuation hflags) fun _ => hcont
    · exact h.scheduling.congr hflags fun _ => hcont
  case invoking =>
    rw [hr] at hs
    obtain rfl := Option.some.inj hs
    have hcall := h.callbacks
    rw [hr] at hcall
    exact ⟨h.others, h.won, h.ready, h.error, h.executor, h.installing, h.scheduling,
      hcall.called⟩
  case done =>
    rw [hr] at hs
    cases hs

end Inv

/-! ### Runs -/

section

variable [DecidableEq ι] {calls : Calls ι X C R E} {s s' : State ι X C R E}

/-- The winner stays the winner. -/
theorem Inv.run {w : Option ι} (h : Inv calls s w) (hrun : Steps (step calls) Free s s') :
    ∃ w', Inv calls s' w' ∧ ∀ j, w = some j → w' = some j := by
  induction hrun generalizing w with
  | refl => exact ⟨w, h, fun _ => id⟩
  | @more s s₁ s' a _ hs _ ih =>
      obtain ⟨w₁, h₁, hw₁⟩ : ∃ w₁, Inv calls s₁ w₁ ∧ ∀ j, w = some j → w₁ = some j := by
        cases a with
        | attempt i spurious => exact h.step_attempt hs
        | install spurious => exact ⟨w, h.step_installer hs, fun _ => id⟩
        | register => exact ⟨w, h.step_registrar hs, fun _ => id⟩
      obtain ⟨w', h', hw'⟩ := ih h₁
      exact ⟨w', h', fun j hj => hw' j (hw₁ j hj)⟩

end

/-- The attempt returned `true`. -/
def Attempt.Succeeded (attempt : Attempt X C R) : Prop := attempt = .scheduling .done

/-- The attempt returned. -/
def Attempt.Returned (attempt : Attempt X C R) : Prop := attempt = .lost ∨ attempt.Succeeded

/-- What the callers see. -/
structure Sound (calls : Calls ι X C R E) (s : State ι X C R E) : Prop where
  winner_unique : ∀ i j, (s.attempt i).Succeeded → (s.attempt j).Succeeded → i = j
  winner : (∀ i, (s.attempt i).Returned) → ι → ∃ i, (s.attempt i).Succeeded
  error : ∀ i, (s.attempt i).Succeeded → s.task.error = (calls.resolver i).getD none
  scheduled_le : s.scheduled.length ≤ 1
  scheduled_only : ∀ d ∈ s.scheduled, d.invocation = calls.continuation.invocation ∧ s.task.Due
  scheduled : (∃ i, (s.attempt i).Succeeded) → s.installer = .scheduling .done →
    s.scheduled.length = 1
  invoked_le : s.invoked.length ≤ 1
  invoked_only : ∀ r ∈ s.invoked, r = calls.readyCallback ∧ s.task.flags.ready = true
  invoked : (∃ i, (s.attempt i).Succeeded) → s.registrar = .done →
    s.invoked = [calls.readyCallback]

theorem Inv.sound {calls : Calls ι X C R E} {s : State ι X C R E} {w : Option ι}
    (h : Inv calls s w) : Sound calls s := by
  have hwon : ∀ i, (s.attempt i).Succeeded → w = some i := fun i hi =>
    h.eq_of_won (by rw [hi]; trivial)
  have hgiven : ∀ r ∈ s.registrar.given calls.readyCallback, r = calls.readyCallback := by
    intro r hr
    rcases hreg : s.registrar with _ | c | _ <;> rw [hreg] at hr
    · cases hr
    · exact List.mem_singleton.1 hr
    · exact List.mem_singleton.1 hr
  have hlen : (s.registrar.given calls.readyCallback).length ≤ 1 := by
    rcases s.registrar with _ | c | _
    · exact Nat.zero_le 1
    · exact Nat.le_refl 1
    · exact Nat.le_refl 1
  refine ⟨fun i j hi hj => ?_, fun hall i => ?_, fun i hi => ?_, ?_, fun d hd => ?_, ?_, ?_, ?_, ?_⟩
  · exact Option.some.inj ((hwon i hi).symm.trans (hwon j hj))
  · -- an attempt that lost found the task ready
    rcases hall i with hl | hd
    · cases w with
      | none =>
          rcases h.others i nofun with hb | ⟨-, hsome⟩
          · cases hl.symm.trans hb
          · cases hsome
      | some j =>
          refine ⟨j, (hall j).resolve_left fun hlost => ?_⟩
          have := h.won j rfl
          rw [hlost] at this
          exact this
    · exact ⟨i, hd⟩
  · rw [h.error, hwon i hi]
    rfl
  · have := h.scheduling.owning
    have hle := Bool.toNat_le s.task.flags.continuationScheduled
    omega
  · refine ⟨(h.scheduling.invocation d hd).trans (CoreTask.captured_invocation _ _),
      h.scheduling.due (Or.inl ?_)⟩
    have := h.scheduling.owning
    have hpos := List.length_pos_of_mem hd
    have hle := Bool.toNat_le s.task.flags.continuationScheduled
    exact Bool.toNat_eq_one.1 (by omega)
  · rintro ⟨i, hi⟩ hdone
    have hsched := h.scheduling
    rw [hwon i hi, Option.elim_some, hi, hdone] at hsched
    have hdue : s.task.Due := by
      refine ⟨?_, h.installing.hasContinuation.2 ⟨_, hdone⟩⟩
      rw [h.ready, hwon i hi]
      rfl
    have hset : s.task.flags.continuationScheduled = true := by
      by_contra hno
      rw [Bool.not_eq_true] at hno
      rcases hsched.pending hdue hno with hp | hp <;> exact hp
    have := hsched.owning
    rw [hset] at this
    simpa [Attempt.sched, Installer.sched, Sched.owning] using this
  · have := h.callbacks.one.length_eq
    simp only [List.length_append] at this
    omega
  · intro r hr
    refine ⟨hgiven r (h.callbacks.one.subset (List.mem_append_right _ hr)),
      h.callbacks.ready fun hnil => ?_⟩
    rw [(List.append_eq_nil_iff.1 hnil).2] at hr
    cases hr
  · rintro ⟨i, hi⟩ hdone
    have hcall := h.callbacks
    rw [hwon i hi, Option.elim_some, hi, hdone] at hcall
    have hnone := hcall.taken trivial (nomatch ·)
    have hone := hcall.one
    rw [hnone] at hone
    exact List.perm_singleton.1 hone

/-- Every interleaving of the calls is sound, and a task that is ready stays so and keeps its
error. -/
theorem resolve_sound [DecidableEq ι] (calls : Calls ι X C R E) {s : State ι X C R E}
    (h : Steps (step calls) Free (initial calls) s) :
    Sound calls s ∧ ∀ s', Steps (step calls) Free s s' → s.task.flags.ready = true →
      s'.task.flags.ready = true ∧ s'.task.error = s.task.error := by
  obtain ⟨w, hinv, -⟩ := (inv_initial calls).run h
  refine ⟨hinv.sound, fun s' hrun hready => ?_⟩
  obtain ⟨w', hinv', hw'⟩ := hinv.run hrun
  rw [hinv.ready] at hready
  obtain ⟨i, rfl⟩ := Option.isSome_iff_exists.1 hready
  obtain rfl := hw' i rfl
  exact ⟨hinv'.ready, hinv'.error.trans hinv.error.symm⟩

/-- Two attempts, one of which rejects, against a thread that installs a continuation. -/
def duel : Calls Bool Unit Unit Unit Unit where
  resolver i := if i then some (some ()) else none
  continuation := ⟨some (), ()⟩
  readyCallback := ()
  isContinueOnCapturedExecutor := true
  attemptExecutor _ := none
  installExecutor := none

/-- Both sides see the two flags; the installer's compare-exchange fails. -/
def duelRun : List (Action Bool) :=
  [.register, .install false, .install false, .attempt false false, .install true, .install false,
    .attempt true false, .attempt false false, .attempt false false, .install false,
    .attempt false false, .install false, .attempt false false, .attempt false false,
    .install false, .install false, .attempt false false, .attempt false false, .register]

theorem duel_sound :
    ∃ s, exec (step duel) (initial duel) duelRun = some s ∧ s.attempt true = .lost ∧
      s.attempt false = .scheduling .done ∧ s.scheduled = [.execute () ()] ∧
      s.invoked = [()] ∧ Sound duel s := by
  obtain ⟨s, hs, hfacts⟩ : ∃ s, exec (step duel) (initial duel) duelRun = some s ∧
      s.attempt true = .lost ∧ s.attempt false = .scheduling .done ∧
      s.scheduled = [.execute () ()] ∧ s.invoked = [()] := ⟨_, rfl, rfl, rfl, rfl, rfl⟩
  have hrun := exec_steps (allowed_free duelRun _) hs
  exact ⟨s, hs, hfacts.1, hfacts.2.1, hfacts.2.2.1, hfacts.2.2.2, (resolve_sound duel hrun).1⟩

end MyEngine.Async.Resolve
