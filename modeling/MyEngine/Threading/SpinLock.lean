import Mathlib.Data.Nat.Notation
import Mathlib.Data.List.Nodup

/-!
# Threading — SpinLock

The two locks of `spin_lock.h`, with the threads by their numbers.  `lock` is the exchange that
takes the lock; there is none while a thread spins.

* `Owned`: the owner of a lock is the thread whose stack holds it.
-/

namespace MyEngine.Threading

/-- `m_threadOwner`, where `none` is the id of no thread. -/
structure SpinLock where
  threadOwner : Option ℕ := none
  deriving DecidableEq, Repr

namespace SpinLock

def lock (l : SpinLock) (thread : ℕ) : Option SpinLock :=
  match l.threadOwner with
  | none   => some { threadOwner := some thread }
  | some _ => none

def unlock (_ : SpinLock) : SpinLock := {}

theorem lock_eq_some {l m : SpinLock} {thread : ℕ} (h : l.lock thread = some m) :
    l = {} ∧ m = { threadOwner := some thread } := by
  obtain ⟨owner⟩ := l
  cases owner with
  | none => exact ⟨rfl, (Option.some.inj h).symm⟩
  | some owner => cases h

/-- What `lock` asserts against: the thread owns the lock it asks for. -/
def Recursive (l : SpinLock) (thread : ℕ) : Prop := l.threadOwner = some thread

instance (l : SpinLock) (thread : ℕ) : Decidable (l.Recursive thread) :=
  inferInstanceAs (Decidable (_ = _))

end SpinLock

structure RecursiveSpinLock where
  threadOwner : Option ℕ := none
  lockCounter : ℕ := 0
  deriving DecidableEq, Repr

namespace RecursiveSpinLock

def lock (l : RecursiveSpinLock) (thread : ℕ) : Option RecursiveSpinLock :=
  match l.threadOwner with
  | none       => some { threadOwner := some thread, lockCounter := l.lockCounter + 1 }
  | some owner => if owner = thread then some { l with lockCounter := l.lockCounter + 1 } else none

def unlock (l : RecursiveSpinLock) : RecursiveSpinLock :=
  if l.lockCounter - 1 = 0 then {} else { l with lockCounter := l.lockCounter - 1 }

end RecursiveSpinLock

/-- The owner of a lock is the thread with a stack that `holds` it. -/
def Owned {σ : Type*} (owner : Option ℕ) (threads : List σ) (holds : σ → Bool) : Prop :=
  ∀ thread, owner = some thread ↔ ∃ stack, threads[thread]? = some stack ∧ holds stack = true

namespace Owned

variable {σ : Type*} {owner : Option ℕ} {threads : List σ} {holds : σ → Bool} {thread : ℕ}
  {old new : σ}

theorem replicate {n : ℕ} {stack : σ} (h : holds stack = false) :
    Owned none (.replicate n stack) holds := by
  refine fun thread => iff_of_false (Option.some_ne_none _).symm ?_
  rintro ⟨stack', hstack, hholds⟩
  obtain rfl := List.eq_of_mem_replicate (List.mem_of_getElem? hstack)
  exact absurd hholds (ne_true_of_eq_false h)

/-- The stack of one thread is replaced by one that holds the lock only if the old one did, or if
the lock was free. -/
theorem move (h : Owned owner threads holds) (new : σ) (hstack : threads[thread]? = some old)
    (hfree : holds new = true → holds old = true ∨ owner = none) :
    Owned (if holds new then some thread else if holds old then none else owner)
      (threads.set thread new) holds := by
  have hlt := (List.getElem?_eq_some_iff.1 hstack).1
  have hold : holds old = true → owner = some thread := fun hh => (h thread).2 ⟨old, hstack, hh⟩
  intro other
  by_cases hother : other = thread
  · obtain rfl := hother
    rw [List.getElem?_set_self hlt]
    cases hnew : holds new with
    | true => exact iff_of_true rfl ⟨new, rfl, hnew⟩
    | false =>
        refine iff_of_false (fun heq => ?_) ?_
        · cases hh : holds old with
          | true =>
              rw [hh] at heq
              cases heq
          | false =>
              rw [hh] at heq
              obtain ⟨stack, heq, hh'⟩ := (h other).1 heq
              obtain rfl := Option.some.inj (hstack.symm.trans heq)
              exact absurd hh' (ne_true_of_eq_false hh)
        · -- the new stack of the thread does not hold the lock
          rintro ⟨stack, heq, hh⟩
          obtain rfl := Option.some.inj heq
          exact absurd hh (ne_true_of_eq_false hnew)
  · rw [List.getElem?_set_ne (Ne.symm hother), ← h other]
    have hne : ∀ {o : Option ℕ}, o = some thread → o ≠ some other :=
      fun ho heq => hother (Option.some.inj (heq.symm.trans ho))
    cases hnew : holds new with
    | true =>
        refine iff_of_false (hne rfl) ?_
        rcases hfree hnew with hh | hnone
        · exact hne (hold hh)
        · rw [hnone]
          exact (Option.some_ne_none _).symm
    | false =>
        cases hh : holds old with
        | true => exact iff_of_false (Option.some_ne_none _).symm (hne (hold hh))
        | false => rfl

theorem keep (h : Owned owner threads holds) (hstack : threads[thread]? = some old)
    (hnew : holds new = holds old) : Owned owner (threads.set thread new) holds := by
  have hmove := h.move new hstack fun hh => .inl (hnew ▸ hh)
  rw [hnew] at hmove
  cases hh : holds old with
  | true =>
      rw [hh, if_pos rfl] at hmove
      rwa [(h thread).2 ⟨old, hstack, hh⟩]
  | false =>
      rw [hh] at hmove
      exact hmove

theorem take (h : Owned none threads holds) (hstack : threads[thread]? = some old)
    (hnew : holds new = true) : Owned (some thread) (threads.set thread new) holds := by
  have hmove := h.move new hstack fun _ => .inr rfl
  rwa [hnew, if_pos rfl] at hmove

theorem release (h : Owned owner threads holds) (hstack : threads[thread]? = some old)
    (hold : holds old = true) (hnew : holds new = false) :
    Owned none (threads.set thread new) holds := by
  have hmove := h.move new hstack fun _ => .inl hold
  rwa [hnew, if_neg nofun, hold, if_pos rfl] at hmove

end Owned

end MyEngine.Threading
