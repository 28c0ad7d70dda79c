import Mathlib.Tactic.TypeStar

/-!
# Support — CondVar

Threads that test a condition under a mutex and wait on a condition variable, while the one that
makes the condition true neither holds the mutex for it nor for its notification.

* `Stage`: a thread, with respect to the condition variable.
* `Move`: what one step does to the stages of all the threads.
* `Awake`: behind the notification nobody waits and nobody is about to; it holds from a
  notification that finds nobody between the test and the wait.
-/

namespace MyEngine.CondVar

/-- Elsewhere, behind a test that found the condition false and before the wait, in the wait. -/
inductive Stage where
  | elsewhere
  | tested
  | waiting
  deriving DecidableEq, Repr

/-- The stage behind a notification of all. -/
def Stage.notified : Stage → Stage
  | waiting => elsewhere
  | x       => x

/-- A step with `set` the condition before it: a thread tests the condition, or waits behind its
test, or goes elsewhere; or all are notified. -/
inductive Move (set : Bool) : List Stage → List Stage → Prop where
  | rest (l : List Stage) : Move set l l
  | thread {l : List Stage} {i : Nat} {x y : Stage} (hx : l[i]? = some x)
      (htested : y = .tested → set = false) (hwaiting : y = .waiting → x = .tested) :
      Move set l (l.set i y)
  | notify (l : List Stage) : Move set l (l.map .notified)

/-- Behind the notification every thread is elsewhere. -/
def Awake (told : Bool) (l : List Stage) : Prop := told = true → ∀ x ∈ l, x = .elsewhere

variable {told set : Bool} {l l' : List Stage}

theorem Stage.notified_of_not_tested {x : Stage} (h : x ≠ tested) : x.notified = elsewhere := by
  cases x with
  | elsewhere | waiting => rfl
  | tested => exact absurd rfl h

namespace Awake

theorem of_not_told (h : told = false) : Awake told l := by
  intro ht
  exact absurd ht (ne_true_of_eq_false h)

/-- A notification that finds nobody between the test and the wait. -/
theorem of_notify (h : .tested ∉ l) : Awake told (l.map .notified) := by
  intro _ x hx
  obtain ⟨y, hy, rfl⟩ := List.mem_map.1 hx
  exact Stage.notified_of_not_tested fun ht => h (ht ▸ hy)

/-- The condition stays true behind the notification, so that no test fails any more. -/
theorem move (h : Awake told l) (hset : told = true → set = true) (hm : Move set l l') :
    Awake told l' := by
  intro ht x hx
  cases hm with
  | rest => exact h ht x hx
  | thread hget htested hwaiting =>
      rcases List.mem_or_eq_of_mem_set hx with hx | rfl
      · exact h ht x hx
      · cases x with
        | elsewhere => rfl
        | tested =>
            rw [hset ht] at htested
            cases htested rfl
        | waiting =>
            rw [hwaiting rfl] at hget
            cases h ht _ (List.mem_of_getElem? hget)
  | notify =>
      obtain ⟨y, hy, rfl⟩ := List.mem_map.1 hx
      rw [h ht y hy]
      rfl

theorem not_waiting (h : Awake told l) (ht : told = true) : Stage.waiting ∉ l := by
  intro hw
  cases h ht _ hw

end Awake

end MyEngine.CondVar
