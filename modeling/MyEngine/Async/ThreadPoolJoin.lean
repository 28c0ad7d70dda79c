import MyEngine.Async.ThreadPool
import MyEngine.Support.CondVar

/-!
# Async — ThreadPoolJoin

The wake-up of the workers by `ThreadPoolExecutor::join`, which writes `m_isActive` and notifies
without `m_mutex`.

* `Worker.stage`: a worker as a thread of the condition variable `m_signal`.
* `State.Abandoned`: `join` has notified, and a worker waits with nothing left to wake it.
* `Heard`: `join` notifies when no worker is between its test of `m_isActive` and its wait.
-/

namespace MyEngine.Async.ThreadPool

open Runs CondVar

variable {ι : Type}

def Worker.stage : Worker ι → Stage
  | entering => .tested
  | waiting  => .waiting
  | _        => .elsewhere

def State.stages (s : State ι) : List Stage := s.workers.map Worker.stage

/-- `join` is behind its `notify_all`. -/
def State.told (s : State ι) : Bool := s.join matches .notified

/-- `m_isActive` is false, `join` has notified, and a worker is blocked in `m_signal.wait` with an
empty queue. -/
structure State.Abandoned (s : State ι) : Prop where
  isActive : s.isActive = false
  notified : s.join = .notified
  invocations : s.invocations = []
  waiting : .waiting ∈ s.workers

/-- The `notify_all` of `join` finds no worker that has seen `m_isActive` and does not wait yet. -/
def Heard (s : State ι) : Action ι → Prop
  | .join => s.join = .stored → .entering ∉ s.workers
  | _     => True

instance [DecidableEq ι] (s : State ι) : DecidablePred (Heard s)
  | .join => inferInstanceAs (Decidable (_ → _))
  | .schedule _ | .queue _ | .work _ | .wake _ => inferInstanceAs (Decidable True)

variable {s s' : State ι}

@[simp] theorem Worker.notified_stage (w : Worker ι) : w.notified.stage = w.stage.notified := by
  cases w <;> rfl

theorem Worker.stage_eq_tested {w : Worker ι} : w.stage = .tested ↔ w = entering := by
  cases w <;> simp [stage]

theorem Worker.stage_eq_waiting {w : Worker ι} : w.stage = .waiting ↔ w = waiting := by
  cases w <;> simp [stage]

theorem stages_notified (l : List (Worker ι)) :
    (l.map Worker.notified).map Worker.stage = (l.map Worker.stage).map Stage.notified := by
  rw [List.map_map, List.map_map]
  exact List.map_congr_left fun w _ => w.notified_stage

theorem isActive_of_told (h : s.told = true) : (!s.isActive) = true := by
  cases hj : s.join with
  | idle | stored =>
      rw [State.told, hj] at h
      cases h
  | notified =>
      rw [State.isActive, hj]
      rfl

/-! ### What a worker does -/

/-- A step of a worker: it enters the wait from its test only, tests with the pool active only,
and goes to the test from an empty queue only. -/
theorem stage_of_stepWorker {i : Nat} (hs : stepWorker s i = some s') :
    ∃ w w', s.workers[i]? = some w ∧ s'.workers = s.workers.set i w' ∧ s'.join = s.join ∧
      (w' = .entering → w = .testing ∧ s.isActive = true) ∧
      (w' = .waiting → w = .entering) ∧
      (w' = .testing → s.invocations = []) ∧
      (s.invocations = [] → s'.invocations = []) := by
  rw [stepWorker] at hs
  cases hw : s.workers[i]? with
  | none =>
      rw [hw] at hs
      cases hs
  | some w =>
      rw [hw] at hs
      cases w with
      | outside | woken =>
          dsimp only at hs
          split at hs
          · cases hs
          · obtain rfl := Option.some.inj hs
            exact ⟨_, _, rfl, rfl, rfl, by simp, by simp, by simp, id⟩
      | body =>
          dsimp only at hs
          cases hq : s.invocations with
          | nil =>
              rw [hq] at hs
              obtain rfl := Option.some.inj hs
              exact ⟨_, _, rfl, rfl, rfl, by simp, by simp, fun _ => rfl, fun _ => hq⟩
          | cons a rest =>
              rw [hq] at hs
              obtain rfl := Option.some.inj hs
              exact ⟨_, _, rfl, rfl, rfl, by simp, by simp, by simp, by simp⟩
      | testing =>
          obtain rfl := Option.some.inj hs
          refine ⟨_, _, rfl, rfl, rfl, fun he => ⟨rfl, ?_⟩, ?_, ?_, id⟩
          · cases ha : s.isActive with
            | true => rfl
            | false =>
                rw [ha] at he
                cases he
          · cases s.isActive <;> simp
          · cases s.isActive <;> simp
      | entering =>
          obtain rfl := Option.some.inj hs
          exact ⟨_, _, rfl, rfl, rfl, by simp, fun _ => rfl, by simp, id⟩
      | looping invocation =>
          cases invocation with
          | none =>
              obtain rfl := Option.some.inj hs
              refine ⟨_, _, rfl, rfl, rfl, ?_, ?_, ?_, id⟩ <;> cases s.isActive <;> simp
          | some a =>
              obtain rfl := Option.some.inj hs
              exact ⟨_, _, rfl, rfl, rfl, by simp, by simp, by simp, id⟩
      | running a | leaving a =>
          obtain rfl := Option.some.inj hs
          exact ⟨_, _, rfl, rfl, rfl, by simp, by simp, by simp, id⟩
      | waiting | exited => cases hs

theorem move_of_step {a : Action ι} (hs : step s a = some s') :
    Move (!s.isActive) s.stages s'.stages := by
  cases a with
  | schedule a =>
      rw [step] at hs
      split at hs
      case isFalse => cases hs
      case isTrue =>
        obtain rfl := Option.some.inj hs
        exact .rest _
  | queue call =>
      rw [step] at hs
      split at hs
      case h_2 => cases hs
      case h_1 =>
        split at hs
        case isTrue => cases hs
        case isFalse =>
          obtain rfl := Option.some.inj hs
          rw [State.stages, State.stages, stages_notified]
          exact .notify _
  | work i =>
      obtain ⟨w, w', hw, hworkers, -, htested, hwaiting, -, -⟩ := stage_of_stepWorker hs
      rw [State.stages, State.stages, hworkers, List.map_set]
      refine .thread (x := w.stage) (by rw [List.getElem?_map, hw]; rfl) (fun hx => ?_)
        fun hx => ?_
      · rw [(htested (Worker.stage_eq_tested.1 hx)).2]
        rfl
      · rw [hwaiting (Worker.stage_eq_waiting.1 hx)]
        rfl
  | wake i =>
      rw [step] at hs
      split at hs
      case h_2 => cases hs
      case h_1 hw =>
        obtain rfl := Option.some.inj hs
        rw [State.stages, State.stages, State.setWorker, List.map_set]
        exact .thread (x := .waiting) (by rw [List.getElem?_map, hw]; rfl) (by simp [Worker.stage])
          (by simp [Worker.stage])
  | join =>
      rw [step, stepJoin] at hs
      split at hs
      case h_1 =>
        split at hs
        case isFalse => cases hs
        case isTrue =>
          obtain rfl := Option.some.inj hs
          exact .rest _
      case h_2 =>
        obtain rfl := Option.some.inj hs
        rw [State.stages, State.stages, stages_notified]
        exact .notify _
      case h_3 => cases hs

/-! ### The notification of `join` -/

theorem told_of_step {a : Action ι} (hs : step s a = some s') (ht : s'.told = true) :
    s.told = true ∨ a = .join ∧ s.join = .stored ∧ s'.stages = s.stages.map .notified := by
  cases a with
  | schedule a =>
      rw [step] at hs
      split at hs
      case isFalse => cases hs
      case isTrue =>
        obtain rfl := Option.some.inj hs
        exact .inl ht
  | queue call =>
      rw [step] at hs
      split at hs
      case h_2 => cases hs
      case h_1 =>
        split at hs
        case isTrue => cases hs
        case isFalse =>
          obtain rfl := Option.some.inj hs
          exact .inl ht
  | work i =>
      obtain ⟨-, -, -, -, hjoin, -⟩ := stage_of_stepWorker hs
      rw [State.told, hjoin] at ht
      exact .inl ht
  | wake i =>
      rw [step] at hs
      split at hs
      case h_2 => cases hs
      case h_1 =>
        obtain rfl := Option.some.inj hs
        exact .inl ht
  | join =>
      rw [step, stepJoin] at hs
      split at hs
      case h_1 =>
        split at hs
        case isFalse => cases hs
        case isTrue =>
          obtain rfl := Option.some.inj hs
          cases ht
      case h_2 hj =>
        obtain rfl := Option.some.inj hs
        exact .inr ⟨rfl, hj, stages_notified _⟩
      case h_3 => cases hs

theorem entering_of_tested (h : .tested ∈ s.stages) : .entering ∈ s.workers := by
  obtain ⟨w, hw, hstage⟩ := List.mem_map.1 h
  obtain rfl := Worker.stage_eq_tested.1 hstage
  exact hw

theorem awake_step {a : Action ι} (h : Awake s.told s.stages) (ha : Heard s a)
    (hs : step s a = some s') : Awake s'.told s'.stages := by
  intro ht
  rcases told_of_step hs ht with ht | ⟨rfl, hj, hstages⟩
  · exact h.move isActive_of_told (move_of_step hs) ht
  · rw [hstages]
    exact Awake.of_notify (fun hm => ha hj (entering_of_tested hm)) ht

/-- A worker that is to test `m_isActive`, or has and does not wait yet, has seen the queue empty
and holds the mutex since. -/
def Quiet (s : State ι) : Prop :=
  ∀ w ∈ s.workers, w = .testing ∨ w = .entering → s.invocations = []

theorem Quiet.init (threadsCount : Nat) : Quiet (initial ι threadsCount) := by
  intro w hw hplace
  rfl

theorem Quiet.notify {invocations : List ι} (h : ¬ s.locked = true) :
    ∀ w ∈ s.workers.map Worker.notified, w = .testing ∨ w = .entering → invocations = [] := by
  intro w hw hplace
  obtain ⟨v, hv, rfl⟩ := List.mem_map.1 hw
  refine absurd (List.any_eq_true.2 ⟨v, hv, ?_⟩) h
  cases v <;> simp [Worker.notified] at hplace <;> rfl

theorem Quiet.step {a : Action ι} (h : Quiet s) (hs : step s a = some s') : Quiet s' := by
  cases a with
  | schedule a =>
      rw [ThreadPool.step] at hs
      split at hs
      case isFalse => cases hs
      case isTrue =>
        obtain rfl := Option.some.inj hs
        exact h
  | queue call =>
      rw [ThreadPool.step] at hs
      split at hs
      case h_2 => cases hs
      case h_1 =>
        split at hs
        case isTrue => cases hs
        case isFalse hlocked =>
          obtain rfl := Option.some.inj hs
          exact Quiet.notify hlocked
  | work i =>
      obtain ⟨w, w', hw, hworkers, -, hentering, -, htesting, hempty⟩ := stage_of_stepWorker hs
      intro v hv hplace
      rw [hworkers] at hv
      rcases List.mem_or_eq_of_mem_set hv with hv | rfl
      · exact hempty (h v hv hplace)
      · rcases hplace with rfl | rfl
        · exact hempty (htesting rfl)
        · obtain ⟨rfl, -⟩ := hentering rfl
          exact hempty (h _ (List.mem_of_getElem? hw) (.inl rfl))
  | wake i =>
      rw [ThreadPool.step] at hs
      split at hs
      case h_2 => cases hs
      case h_1 =>
        obtain rfl := Option.some.inj hs
        intro v hv hplace
        rcases List.mem_or_eq_of_mem_set hv with hv | rfl
        · exact h v hv hplace
        · simp at hplace
  | join =>
      rw [ThreadPool.step, stepJoin] at hs
      split at hs
      case h_1 =>
        split at hs
        case isFalse => cases hs
        case isTrue =>
          obtain rfl := Option.some.inj hs
          exact h
      case h_2 =>
        obtain rfl := Option.some.inj hs
        intro v hv hplace
        obtain ⟨w, hw, rfl⟩ := List.mem_map.1 hv
        refine h w hw ?_
        cases w <;> simp [Worker.notified] at hplace ⊢
      case h_3 => cases hs

theorem not_abandoned (h : Awake s.told s.stages) : ¬ s.Abandoned := by
  intro ha
  have ht : s.told = true := by rw [State.told, ha.notified]
  exact h.not_waiting ht (List.mem_map.2 ⟨_, ha.waiting, rfl⟩)

/-- The worker that `join` did not find waiting goes on into the wait. -/
theorem abandoned_of_not_heard {a : Action ι} (h : Quiet s) (hs : step s a = some s')
    (ha : ¬ Heard s a) : ∃ i s₂, step s' (.work i) = some s₂ ∧ s₂.Abandoned := by
  cases a with
  | join =>
      rw [Heard, Classical.not_imp, not_not] at ha
      obtain ⟨hj, hentering⟩ := ha
      rw [step, stepJoin, hj] at hs
      obtain rfl := Option.some.inj hs
      obtain ⟨i, hi⟩ := List.mem_iff_getElem?.1 hentering
      have hlt : i < s.workers.length := (List.getElem?_eq_some_iff.1 hi).1
      let s₁ : State ι := { s with join := .notified, workers := s.workers.map .notified }
      have hget : s₁.workers[i]? = some .entering := by
        rw [List.getElem?_map, hi]
        rfl
      refine ⟨i, s₁.setWorker i .waiting, ?_, rfl, rfl, h _ hentering (.inr rfl), ?_⟩
      · change step s₁ (.work i) = _
        rw [step, stepWorker, hget]
      · exact List.mem_set (by rwa [List.length_map]) _
  | schedule | queue | work | wake => exact absurd trivial ha

/-- Where `join` notifies when no worker is on its way into the wait it abandons none, and where it
does not a worker is abandoned with the next step it takes. -/
theorem not_abandoned_of_heard (threadsCount : Nat) :
    (∀ s, Steps step Heard (initial ι threadsCount) s → ¬ s.Abandoned) ∧
    ∀ s a s₁, Steps step Free (initial ι threadsCount) s → step s a = some s₁ → ¬ Heard s a →
      ∃ i s₂, step s₁ (.work i) = some s₂ ∧ s₂.Abandoned := by
  constructor
  · intro s h
    have hawake : Awake s.told s.stages :=
      h.invariant (P := fun s => Awake s.told s.stages) (fun h ha hs => awake_step h ha hs)
        (Awake.of_not_told rfl)
    exact not_abandoned hawake
  · intro s a s₁ h hs ha
    exact abandoned_of_not_heard (h.invariant (fun h _ hs => h.step hs) (Quiet.init _)) hs ha

/-- The one worker has seen `m_isActive` when `join` clears it and notifies. -/
def notifiedTooEarly : List (Action Unit) :=
  [.work 0, .work 0, .work 0, .join, .join]

theorem worker_abandoned : ∃ s : State Unit, Steps step Free (initial Unit 1) s ∧ s.Abandoned := by
  obtain ⟨s, hs, hactive, hjoin, hempty, hw⟩ : ∃ s,
      exec step (initial Unit 1) (notifiedTooEarly ++ [.work 0]) = some s ∧
      s.isActive = false ∧ s.join = .notified ∧ s.invocations = [] ∧ s.workers = [.waiting] :=
    ⟨_, rfl, rfl, rfl, rfl, rfl⟩
  exact ⟨s, exec_steps (allowed_free _ _) hs, hactive, hjoin, hempty, by simp [hw]⟩

/-- Of two workers one waits and is woken by `join`, the other is still at its test. -/
theorem two_workers_joined : ∃ s : State Unit, s.workers = [.exited, .exited] ∧ ¬ s.Abandoned := by
  obtain ⟨s, hs, hheard, hw⟩ : ∃ s, exec step (initial Unit 2)
      ([.work 0, .work 0, .work 0, .work 0, .work 1, .work 1, .join, .work 1, .join, .work 1,
        .work 0, .work 0]) = some s ∧
      Allowed step Heard (initial Unit 2)
        ([.work 0, .work 0, .work 0, .work 0, .work 1, .work 1, .join, .work 1, .join, .work 1,
          .work 0, .work 0]) ∧ s.workers = [.exited, .exited] := ⟨_, rfl, by decide, rfl⟩
  exact ⟨s, hw, (not_abandoned_of_heard 2).1 s (exec_steps hheard hs)⟩

end MyEngine.Async.ThreadPool
