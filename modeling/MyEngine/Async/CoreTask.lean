import MyEngine.Support.Runs

/-!
# Async — CoreTask

`core_task_impl.cpp`: the state of a task and what its operations do to it.  An atomic operation
and a section under one of the flag locks is one step; the lock bits of the flags word are set
inside a section only, so no step sees them.

* `CoreTask`: the task with its sections.
* `Sched`: where a thread stands in `tryScheduleContinuation`; `Sched.step` is its next atomic
  operation.
* `Scheduling`: what holds of two threads that may both come to schedule the continuation.
-/

namespace MyEngine.Async

/-- The word of the task's flags, without the lock bits. -/
structure Flags where
  ready : Bool := false
  hasContinuation : Bool := false
  continuationScheduled : Bool := false
  deriving DecidableEq, Repr

/-- Executors are `X`, the invocations of continuations `C`. -/
structure TaskContinuation (X C : Type) where
  executor : Option X
  invocation : C
  deriving DecidableEq, Repr

/-- Ready callbacks are `R`, errors `E`; a null pointer is `none`. -/
structure CoreTask (X C R E : Type) where
  flags : Flags := {}
  error : Option E := none
  continuation : Option (TaskContinuation X C) := none
  readyCallback : Option R := none
  isContinueOnCapturedExecutor : Bool := true
  deriving DecidableEq, Repr

/-- How a continuation is scheduled: given to an executor, or called on the spot. -/
inductive Dispatch (X C : Type) where
  | execute (executor : X) (invocation : C)
  | invoke (invocation : C)
  deriving DecidableEq, Repr

def Dispatch.invocation {X C : Type} : Dispatch X C → C
  | execute _ invocation => invocation
  | invoke invocation    => invocation

variable {X C R E : Type}

namespace CoreTask

/-- The section of `tryResolveInternal`.  `callback` is what the resolver's callback leaves in
the rejector, when there is one; the section answers nothing when the task is ready already. -/
def tryResolve (callback : Option (Option E)) (t : CoreTask X C R E) :
    Option (CoreTask X C R E) :=
  if t.flags.ready then none
  else some { t with error := callback.getD t.error, flags := { t.flags with ready := true } }

/-- The section of `setReadyCallback`, with the callback to be called behind it. -/
def setReadyCallback (callback : Option R) (t : CoreTask X C R E) :
    Option R × CoreTask X C R E :=
  if t.flags.ready then (callback, t) else (none, { t with readyCallback := callback })

/-- The section of `invokeReadyCallback`, with the callback to be called behind it. -/
def takeReadyCallback (t : CoreTask X C R E) : Option R × CoreTask X C R E :=
  (t.readyCallback, { t with readyCallback := none })

theorem setReadyCallback_flags (callback : Option R) (t : CoreTask X C R E) :
    (t.setReadyCallback callback).2.flags = t.flags := by
  rw [setReadyCallback]
  split <;> rfl

/-- A callback given to a task that is not ready is stored. -/
theorem setReadyCallback_of_not_ready {callback : Option R} {t : CoreTask X C R E}
    (h : t.flags.ready = false) :
    t.setReadyCallback callback = (none, { t with readyCallback := callback }) := by
  rw [setReadyCallback, if_neg (by rw [h]; decide)]

/-- One given to a task that is ready is called, and nothing is stored. -/
theorem setReadyCallback_of_ready {callback : Option R} {t : CoreTask X C R E}
    (h : t.flags.ready = true) : t.setReadyCallback callback = (callback, t) := by
  rw [setReadyCallback, if_pos h]

/-- What `setContinuation` keeps of the continuation it is given. -/
def captured (continuation : TaskContinuation X C) (t : CoreTask X C R E) :
    TaskContinuation X C :=
  if t.isContinueOnCapturedExecutor then continuation else { continuation with executor := none }

theorem captured_invocation (c : TaskContinuation X C) (t : CoreTask X C R E) :
    (t.captured c).invocation = c.invocation := by
  rw [captured]
  split <;> rfl

/-- The end of `tryScheduleContinuation`; `current` is `Executor::getCurrent()`. -/
def dispatch (current : Option X) (continuation : TaskContinuation X C) (t : CoreTask X C R E) :
    Dispatch X C :=
  match continuation.executor.or current with
  | some executor =>
      if t.isContinueOnCapturedExecutor then .execute executor continuation.invocation
      else .invoke continuation.invocation
  | none          => .invoke continuation.invocation

theorem dispatch_invocation (t : CoreTask X C R E) (current : Option X)
    (c : TaskContinuation X C) : (t.dispatch current c).invocation = c.invocation := by
  rw [dispatch]
  split
  · split <;> rfl
  · rfl

/-- The task is ready and has a continuation. -/
def Due (t : CoreTask X C R E) : Prop := t.flags.ready ∧ t.flags.hasContinuation

instance (t : CoreTask X C R E) : Decidable t.Due := inferInstanceAs (Decidable (_ ∧ _))

end CoreTask

/-! ### `tryScheduleContinuation` -/

/-- The next operation of a thread in `tryScheduleContinuation`: the test of the two flags, the
load, the compare-exchange with the value it expects, the move of the continuation, its
dispatch. -/
inductive Sched (X C : Type) where
  | check
  | load
  | exchange (expected : Flags)
  | take
  | run (continuation : Option (TaskContinuation X C))
  | done
  deriving DecidableEq, Repr

/-- One operation; `spurious` is a compare-exchange that fails for no reason. -/
def Sched.step (current : Option X) (spurious : Bool) (t : CoreTask X C R E) :
    Sched X C → Option (Sched X C × CoreTask X C R E × Option (Dispatch X C))
  | check      => some (if t.Due then load else done, t, none)
  | load       => some (exchange t.flags, t, none)
  | exchange e =>
      if e.continuationScheduled then some (done, t, none)
      else if t.flags = e ∧ spurious = false then
        some (take, { t with flags := { e with continuationScheduled := true } }, none)
      else some (exchange t.flags, t, none)
  | take       => some (run t.continuation, { t with continuation := none }, none)
  | run c      => some (done, t, c.map fun c => t.dispatch current c)
  | done       => none

/-- What one operation can do. -/
inductive Sched.Move (current : Option X) (t : CoreTask X C R E) :
    Sched X C → Sched X C → CoreTask X C R E → Option (Dispatch X C) → Prop where
  | due (h : t.Due) : Move current t check load t none
  | early (h : ¬ t.Due) : Move current t check done t none
  | loaded : Move current t load (exchange t.flags) t none
  | already {e : Flags} (h : e.continuationScheduled = true) :
      Move current t (exchange e) done t none
  | exchanged (h : t.flags.continuationScheduled = false) :
      Move current t (exchange t.flags) take
        { t with flags := { t.flags with continuationScheduled := true } } none
  | failed {e : Flags} (h : e.continuationScheduled = false) :
      Move current t (exchange e) (exchange t.flags) t none
  | taken : Move current t take (run t.continuation) { t with continuation := none } none
  | ran (c : Option (TaskContinuation X C)) :
      Move current t (run c) done t (c.map fun c => t.dispatch current c)

theorem Sched.move_of_step {current : Option X} {spurious : Bool} {t t' : CoreTask X C R E}
    {p p' : Sched X C} {d : Option (Dispatch X C)}
    (h : p.step current spurious t = some (p', t', d)) : Sched.Move current t p p' t' d := by
  cases p with
  | check =>
      rw [Sched.step] at h
      by_cases hdue : t.Due
      · rw [if_pos hdue] at h
        cases h
        exact .due hdue
      · rw [if_neg hdue] at h
        cases h
        exact .early hdue
  | load =>
      cases h
      exact .loaded
  | exchange e =>
      rw [Sched.step] at h
      by_cases he : e.continuationScheduled = true
      · rw [if_pos he] at h
        cases h
        exact .already he
      · rw [if_neg he] at h
        rw [Bool.not_eq_true] at he
        by_cases heq : t.flags = e ∧ spurious = false
        · rw [if_pos heq] at h
          obtain ⟨rfl, -⟩ := heq
          cases h
          exact .exchanged he
        · rw [if_neg heq] at h
          cases h
          exact .failed he
  | take =>
      cases h
      exact .taken
  | run c =>
      cases h
      exact .ran c
  | done => cases h

/-- What the operations leave alone. -/
structure Sched.Frame (p : Sched X C) (t t' : CoreTask X C R E) : Prop where
  ready : t'.flags.ready = t.flags.ready
  hasContinuation : t'.flags.hasContinuation = t.flags.hasContinuation
  error : t'.error = t.error
  readyCallback : t'.readyCallback = t.readyCallback
  executor : t'.isContinueOnCapturedExecutor = t.isContinueOnCapturedExecutor
  continuation : p ≠ .take → t'.continuation = t.continuation

theorem Sched.Move.frame {current : Option X} {t t' : CoreTask X C R E} {p p' : Sched X C}
    {d : Option (Dispatch X C)} (h : Sched.Move current t p p' t' d) : p.Frame t t' := by
  cases h with
  | taken => exact ⟨rfl, rfl, rfl, rfl, rfl, fun hne => absurd rfl hne⟩
  | _ => exact ⟨rfl, rfl, rfl, rfl, rfl, fun _ => rfl⟩

/-- A thread that will look at the flags again. -/
def Sched.Pending : Sched X C → Prop
  | check | load | exchange _ => True
  | _                         => False

/-- A thread that has seen both flags. -/
def Sched.Past : Sched X C → Prop
  | load | exchange _ | take | run _ => True
  | _                                => False

/-- A thread that won the compare-exchange and has not dispatched the continuation yet. -/
def Sched.owning : Sched X C → Nat
  | take | run _ => 1
  | _            => 0

/-- Two threads `p` and `q` in `tryScheduleContinuation` of a task whose continuation is `c`;
`scheduled` is what was dispatched. -/
structure Scheduling (c : TaskContinuation X C) (t : CoreTask X C R E)
    (scheduled : List (Dispatch X C)) (p q : Sched X C) : Prop where
  due : t.flags.continuationScheduled = true ∨ p.Past ∨ q.Past → t.Due
  stale : ∀ e : Flags, p = .exchange e ∨ q = .exchange e → e.continuationScheduled = true →
    t.flags.continuationScheduled = true
  owning : p.owning + q.owning + scheduled.length = t.flags.continuationScheduled.toNat
  pending : t.Due → t.flags.continuationScheduled = false → p.Pending ∨ q.Pending
  kept : t.flags.hasContinuation = true →
    t.flags.continuationScheduled = false ∨ p = .take ∨ q = .take → t.continuation = some c
  carried : ∀ c', p = .run c' ∨ q = .run c' → c' = some c
  invocation : ∀ d ∈ scheduled, d.invocation = c.invocation

namespace Scheduling

variable {c : TaskContinuation X C} {t t' : CoreTask X C R E} {scheduled : List (Dispatch X C)}
  {p p' q : Sched X C}

theorem symm (h : Scheduling c t scheduled p q) : Scheduling c t scheduled q p where
  due hd := h.due (hd.imp_right Or.symm)
  stale e he := h.stale e he.symm
  owning := by rw [Nat.add_comm q.owning, h.owning]
  pending hd hs := (h.pending hd hs).symm
  kept hc ht := h.kept hc (ht.imp_right Or.symm)
  carried c' hc := h.carried c' hc.symm
  invocation := h.invocation

/-- An operation that leaves the task as it is, of a thread that does not own the
continuation. -/
theorem look (h : Scheduling c t scheduled p q) (hp : p.owning = 0) (hown : p'.owning = 0)
    (hdue : p'.Past → t.Due)
    (hstale : ∀ e : Flags, p' = .exchange e → e.continuationScheduled = true →
      t.flags.continuationScheduled = true)
    (hpending : t.Due → t.flags.continuationScheduled = false → p'.Pending) :
    Scheduling c t scheduled p' q where
  due := by
    rintro (hs | hp | hq)
    · exact h.due (Or.inl hs)
    · exact hdue hp
    · exact h.due (Or.inr (Or.inr hq))
  stale e := by
    rintro (he | he)
    · exact hstale e he
    · exact h.stale e (Or.inr he)
  owning := by rw [hown, ← hp, h.owning]
  pending hd hs := Or.inl (hpending hd hs)
  kept hc := by
    rintro (hs | rfl | hq)
    · exact h.kept hc (Or.inl hs)
    · cases hown
    · exact h.kept hc (Or.inr (Or.inr hq))
  carried c' := by
    rintro (rfl | hq)
    · cases hown
    · exact h.carried c' (Or.inr hq)
  invocation := h.invocation

/-- At most one thread owns the continuation, and none does before the flag is set. -/
theorem not_owning (h : Scheduling c t scheduled p q)
    (hs : t.flags.continuationScheduled = false) : p.owning = 0 ∧ q.owning = 0 ∧
      scheduled = [] := by
  have := h.owning
  rw [hs, Bool.toNat_false] at this
  refine ⟨by omega, by omega, List.eq_nil_of_length_eq_zero (by omega)⟩

theorem owned (h : Scheduling c t scheduled p q) (hp : p.owning = 1) :
    t.flags.continuationScheduled = true ∧ q.owning = 0 ∧ scheduled = [] := by
  have := h.owning
  have hle := Bool.toNat_le t.flags.continuationScheduled
  refine ⟨?_, by omega, List.eq_nil_of_length_eq_zero (by omega)⟩
  exact Bool.toNat_eq_one.1 (by omega)

theorem exchanged (h : Scheduling c t scheduled (.exchange t.flags) q)
    (hs : t.flags.continuationScheduled = false) :
    Scheduling c { t with flags := { t.flags with continuationScheduled := true } } scheduled
      .take q := by
  have hdue : t.Due := h.due (Or.inr (Or.inl trivial))
  have ⟨_, hq, hnil⟩ := h.not_owning hs
  refine ⟨fun _ => hdue, fun _ _ _ => rfl, ?_, (fun _ hf => nomatch hf), fun hc _ => ?_, ?_, ?_⟩
  · rw [hq, hnil]
    rfl
  · exact h.kept hc (Or.inl hs)
  · rintro c' (hc | rfl)
    · cases hc
    · cases hq
  · exact h.invocation

theorem taken (h : Scheduling c t scheduled .take q) :
    Scheduling c { t with continuation := none } scheduled (.run t.continuation) q := by
  have hdue : t.Due := h.due (Or.inr (Or.inl trivial))
  have hkept := h.kept hdue.2 (Or.inr (Or.inl rfl))
  have ⟨hs, hq, _⟩ := h.owned rfl
  refine ⟨fun _ => hdue, ?_, h.owning, fun _ hf => ?_, fun _ => ?_, ?_, h.invocation⟩
  · rintro e (he | he)
    · cases he
    · exact h.stale e (Or.inr he)
  · exact absurd (hs.symm.trans hf) (by decide)
  · rintro (hf | hf | rfl)
    · exact absurd (hs.symm.trans hf) (by decide)
    · cases hf
    · cases hq
  · rintro c' (hc | rfl)
    · cases hc
      exact hkept
    · cases hq

theorem ran {c' : Option (TaskContinuation X C)} (h : Scheduling c t scheduled (.run c') q)
    (current : Option X) :
    Scheduling c t (scheduled ++ (c'.map fun c => t.dispatch current c).toList) .done q := by
  have hdue : t.Due := h.due (Or.inr (Or.inl trivial))
  have ⟨hs, hq, hnil⟩ := h.owned rfl
  obtain rfl : c' = some c := h.carried c' (Or.inl rfl)
  subst hnil
  refine ⟨fun _ => hdue, fun e he => h.stale e (Or.inr (he.resolve_left (nomatch ·))), ?_,
    fun _ hf => absurd (hs.symm.trans hf) (by decide), fun hc => ?_, ?_, ?_⟩
  · rw [hq, hs]
    rfl
  · rintro (hf | hf | rfl)
    · exact absurd (hs.symm.trans hf) (by decide)
    · cases hf
    · cases hq
  · rintro c' (hc | rfl)
    · cases hc
    · cases hq
  · intro d hd
    obtain rfl : d = t.dispatch current c := by simpa using hd
    exact t.dispatch_invocation current c

/-- An operation of one of the two threads. -/
theorem move {current : Option X} {d : Option (Dispatch X C)}
    (h : Scheduling c t scheduled p q) (hm : Sched.Move current t p p' t' d) :
    Scheduling c t' (scheduled ++ d.toList) p' q := by
  cases hm with
  | due hdue =>
      rw [Option.toList_none, List.append_nil]
      exact h.look rfl rfl (fun _ => hdue) (fun _ he => by cases he) fun _ _ => trivial
  | early hdue =>
      rw [Option.toList_none, List.append_nil]
      exact h.look rfl rfl (fun hp => hp.elim) (fun _ he => by cases he) fun hd => absurd hd hdue
  | loaded =>
      rw [Option.toList_none, List.append_nil]
      refine h.look rfl rfl (fun _ => h.due (Or.inr (Or.inl trivial))) ?_ fun _ _ => trivial
      rintro e he hs
      cases he
      exact hs
  | already he =>
      rw [Option.toList_none, List.append_nil]
      have hs := h.stale _ (Or.inl rfl) he
      refine h.look rfl rfl (fun hp => hp.elim) (fun _ he => by cases he) fun _ hf => ?_
      exact absurd (hs.symm.trans hf) (by decide)
  | exchanged hs =>
      rw [Option.toList_none, List.append_nil]
      exact h.exchanged hs
  | failed =>
      rw [Option.toList_none, List.append_nil]
      refine h.look rfl rfl (fun _ => h.due (Or.inr (Or.inl trivial))) ?_ fun _ _ => trivial
      rintro e he hs
      cases he
      exact hs
  | taken =>
      rw [Option.toList_none, List.append_nil]
      exact h.taken
  | ran c' => exact h.ran current

/-- Only the flags matter, and the continuation once it is installed. -/
theorem congr (h : Scheduling c t scheduled p q) (hf : t'.flags = t.flags)
    (hc : t.flags.hasContinuation = true → t'.continuation = t.continuation) :
    Scheduling c t' scheduled p q where
  due hd := by
    have := h.due (hf ▸ hd)
    rwa [CoreTask.Due, hf]
  stale e he hs := by rw [hf, h.stale e he hs]
  owning := by rw [hf, h.owning]
  pending hd hs := h.pending (by rwa [CoreTask.Due, hf] at hd) (hf ▸ hs)
  kept hhas ht := by
    rw [hf] at hhas ht
    rw [hc hhas, h.kept hhas ht]
  carried := h.carried
  invocation := h.invocation

/-- The task becomes ready; the thread that made it so will come to `tryScheduleContinuation`. -/
theorem ready (h : Scheduling c t scheduled .done q) :
    Scheduling c { t with flags := { t.flags with ready := true } } scheduled .check q where
  due := by
    rintro (hs | hp | hq)
    · exact ⟨rfl, (h.due (Or.inl hs)).2⟩
    · exact hp.elim
    · exact ⟨rfl, (h.due (Or.inr (Or.inr hq))).2⟩
  stale e he := h.stale e (Or.inr (he.resolve_left (nomatch ·)))
  owning := h.owning
  pending _ _ := Or.inl trivial
  kept hc := by
    rintro (hs | hp | hq)
    · exact h.kept hc (Or.inl hs)
    · cases hp
    · exact h.kept hc (Or.inr (Or.inr hq))
  carried c' := by
    rintro (hp | hq)
    · cases hp
    · exact h.carried c' (Or.inr hq)
  invocation := h.invocation

/-- The continuation is published; the thread that did so comes to `tryScheduleContinuation`. -/
theorem install (h : Scheduling c t scheduled p .check)
    (hno : t.flags.hasContinuation = false) (hc : t.continuation = some c) :
    Scheduling c { t with flags := { t.flags with hasContinuation := true } } scheduled p
      .check := by
  have hnot : ¬ t.Due := fun hd => absurd (hno.symm.trans hd.2) (by decide)
  have hpast : ¬ (t.flags.continuationScheduled = true ∨ p.Past ∨ Sched.Past .check) :=
    fun hd => hnot (h.due hd)
  exact ⟨fun hd => absurd hd hpast, h.stale, h.owning, fun _ _ => Or.inr trivial,
    fun _ _ => hc, h.carried, h.invocation⟩

end Scheduling

end MyEngine.Async
