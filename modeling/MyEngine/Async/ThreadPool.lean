import MyEngine.Support.Runs
import MyEngine.Support.Tally

/-!
# Async — ThreadPool

`ThreadPoolExecutor` of `thread_pool_executor.cpp`: the calls of `scheduleInvocation`, the worker
threads and the `join` of the destructor.

* `Worker`: where a worker stands in `threadWork` and `getOrWaitNextInvocation`.
* `step`: the threads, one access to shared state at a time; `m_isActive` is written without the
  mutex, and so may change while a worker holds it.
* `Counted`: what every run keeps.
* `Attended`: the last worker does not leave while an invocation is queued.
-/

namespace MyEngine.Async.ThreadPool

open Runs

/-- A worker outside of `getOrWaitNextInvocation`, at the body of its loop, behind the test of the
queue, before the wait, in the wait, behind it and without the mutex, at the condition of the loop
with the invocation taken, if any; with an invocation to run, and with one that has run; and
behind its loop. -/
inductive Worker (ι : Type) where
  | outside
  | body
  | testing
  | entering
  | waiting
  | woken
  | looping (invocation : Option ι)
  | running (invocation : ι)
  | leaving (invocation : ι)
  | exited
  deriving DecidableEq, Repr

/-- `join`: not called, behind `m_isActive = false`, behind `notify_all`. -/
inductive Join where
  | idle
  | stored
  | notified
  deriving DecidableEq, Repr

/-- `entering` are the invocations whose `scheduleInvocation` has counted and not yet queued
them. -/
structure State (ι : Type) where
  workers : List (Worker ι)
  entering : List ι := []
  invocations : List ι := []
  taskCounter : Nat := 0
  join : Join := .idle
  scheduled : List ι := []
  executed : List ι := []

inductive Action (ι : Type) where
  | schedule (invocation : ι)
  | queue (call : Nat)
  | work (worker : Nat)
  | wake (worker : Nat)
  | join

variable {ι : Type}

def initial (ι : Type) (threadsCount : Nat) : State ι where
  workers := .replicate threadsCount .outside

def State.isActive (s : State ι) : Bool := s.join matches .idle

/-- The worker holds `m_mutex`. -/
def Worker.locks : Worker ι → Bool
  | body | testing | entering | looping _ => true
  | _                                     => false

def State.locked (s : State ι) : Bool := s.workers.any Worker.locks

def Worker.notified : Worker ι → Worker ι
  | waiting => woken
  | w       => w

/-- `eraseInvocation(m_invocations.begin())`: the last one takes the place of the first. -/
def eraseInvocation : List ι → List ι
  | []        => []
  | _ :: rest =>
      match rest.getLast? with
      | none      => []
      | some last => last :: rest.dropLast

def State.setWorker (s : State ι) (i : Nat) (w : Worker ι) : State ι :=
  { s with workers := s.workers.set i w }

def stepWorker (s : State ι) (i : Nat) : Option (State ι) :=
  match s.workers[i]? with
  | some .outside => if s.locked then none else some (s.setWorker i .body)
  | some .woken   => if s.locked then none else some (s.setWorker i (.looping none))
  | some .body =>
      match s.invocations with
      | []              => some (s.setWorker i .testing)
      | invocation :: _ =>
          some (State.setWorker { s with invocations := eraseInvocation s.invocations } i
            (.looping (some invocation)))
  | some .testing => some (s.setWorker i (if s.isActive then .entering else .looping none))
  | some .entering => some (s.setWorker i .waiting)
  | some (.looping (some invocation)) => some (s.setWorker i (.running invocation))
  | some (.looping none) => some (s.setWorker i (if s.isActive then .body else .exited))
  | some (.running invocation) =>
      some (State.setWorker { s with executed := s.executed ++ [invocation] } i
        (.leaving invocation))
  | some (.leaving _) =>
      some (State.setWorker { s with taskCounter := s.taskCounter - 1 } i .outside)
  | some .waiting | some .exited | none => none

def stepJoin (s : State ι) : Option (State ι) :=
  match s.join with
  | .idle     => if s.entering.isEmpty then some { s with join := .stored } else none
  | .stored   => some { s with join := .notified, workers := s.workers.map .notified }
  | .notified => none

def step (s : State ι) : Action ι → Option (State ι)
  | .schedule invocation =>
      if s.isActive then
        some { s with
          taskCounter := s.taskCounter + 1
          entering := s.entering ++ [invocation]
          scheduled := s.scheduled ++ [invocation] }
      else none
  | .queue call =>
      match s.entering[call]? with
      | some invocation =>
          if s.locked then none
          else some { s with
            entering := s.entering.eraseIdx call
            invocations := s.invocations ++ [invocation]
            workers := s.workers.map .notified }
      | none => none
  | .work i => stepWorker s i
  | .wake i =>
      match s.workers[i]? with
      | some .waiting => some (s.setWorker i .woken)
      | _             => none
  | .join => stepJoin s

/-! ### `Counted` -/

/-- The invocation the worker has taken and not run. -/
def Worker.held : Worker ι → Option ι
  | looping invocation => invocation
  | running invocation => some invocation
  | _                  => none

/-- The worker has taken an invocation and not subtracted it from `m_taskCounter`. -/
def Worker.busy : Worker ι → Nat
  | looping (some _) | running _ | leaving _ => 1
  | _                                        => 0

@[simp] theorem Worker.notified_held (w : Worker ι) : w.notified.held = w.held := by
  cases w <;> rfl

@[simp] theorem Worker.notified_busy (w : Worker ι) : w.notified.busy = w.busy := by
  cases w <;> rfl

theorem eraseInvocation_length (l : List ι) : (eraseInvocation l).length = l.length - 1 := by
  cases l with
  | nil => rfl
  | cons a rest =>
      rw [eraseInvocation]
      cases h : rest.getLast? with
      | none => rw [List.getLast?_eq_none_iff.1 h]; rfl
      | some last =>
          obtain ⟨rest, rfl⟩ := List.getLast?_eq_some_iff.1 h
          simp

theorem eraseInvocation_perm (a : ι) (rest : List ι) : (eraseInvocation (a :: rest)).Perm rest := by
  rw [eraseInvocation]
  cases h : rest.getLast? with
  | none => rw [List.getLast?_eq_none_iff.1 h]
  | some last =>
      obtain ⟨rest, rfl⟩ := List.getLast?_eq_some_iff.1 h
      rw [List.dropLast_concat]
      exact (List.perm_append_singleton last rest).symm

variable [DecidableEq ι]

structure Counted (s : State ι) : Prop where
  total : ∀ i, s.entering.count i + s.invocations.count i +
    tally (fun w => w.held.toList.count i) s.workers + s.executed.count i = s.scheduled.count i
  counter : s.taskCounter =
    s.entering.length + s.invocations.length + tally Worker.busy s.workers

namespace Counted

variable {s s' : State ι}

theorem init (threadsCount : Nat) : Counted (initial ι threadsCount) := by
  have hzero : ∀ f : Worker ι → Nat, f .outside = 0 →
      tally f (.replicate threadsCount .outside) = 0 := by
    intro f hf
    refine tally_eq_zero.2 fun w hw => ?_
    rw [(List.mem_replicate.1 hw).2, hf]
  constructor
  · intro i
    rw [initial, hzero _ rfl]
    rfl
  · rw [initial, hzero _ rfl]
    rfl

/-- What a worker does to the queue, the counter and what has run. -/
theorem work (h : Counted s) {i : Nat} {w w' : Worker ι} (hw : s.workers[i]? = some w)
    (hworkers : s'.workers = s.workers.set i w') (hentering : s'.entering = s.entering)
    (hscheduled : s'.scheduled = s.scheduled)
    (htotal : ∀ j, s'.invocations.count j + w'.held.toList.count j + s'.executed.count j =
      s.invocations.count j + w.held.toList.count j + s.executed.count j)
    (hcounter : s'.taskCounter + (s.invocations.length + w.busy) =
      s.taskCounter + (s'.invocations.length + w'.busy)) : Counted s' where
  total j := by
    have hset := tally_set (fun w => w.held.toList.count j) hw w'
    have := h.total j
    have := htotal j
    rw [hworkers, hentering, hscheduled]
    omega
  counter := by
    have hset := tally_set Worker.busy hw w'
    have := h.counter
    rw [hworkers, hentering]
    omega

theorem notify (h : Counted s) (hworkers : s'.workers = s.workers.map .notified)
    (htotal : ∀ j, s'.entering.count j + s'.invocations.count j + s'.executed.count j =
      s.entering.count j + s.invocations.count j + s.executed.count j)
    (hscheduled : s'.scheduled = s.scheduled)
    (hcounter : s'.taskCounter = s.taskCounter)
    (hlength : s'.entering.length + s'.invocations.length =
      s.entering.length + s.invocations.length) : Counted s' where
  total j := by
    have := h.total j
    have := htotal j
    have hmap : tally (fun w => w.held.toList.count j) s'.workers =
        tally (fun w => w.held.toList.count j) s.workers := by
      rw [hworkers, tally_map]
      exact tally_congr fun w _ => by rw [Worker.notified_held]
    rw [hmap, hscheduled]
    omega
  counter := by
    have hmap : tally Worker.busy s'.workers = tally Worker.busy s.workers := by
      rw [hworkers, tally_map]
      exact tally_congr fun w _ => w.notified_busy
    rw [hmap, hcounter, hlength]
    exact h.counter

theorem stepWorker {i : Nat} (h : Counted s) (hs : stepWorker s i = some s') : Counted s' := by
  rw [ThreadPool.stepWorker] at hs
  cases hw : s.workers[i]? with
  | none =>
      rw [hw] at hs
      cases hs
  | some w =>
      rw [hw] at hs
      cases w with
      | outside | woken =>
          dsimp only at hs
          split at hs
          · cases hs
          · obtain rfl := Option.some.inj hs
            exact h.work hw rfl rfl rfl (fun _ => rfl) rfl
      | body =>
          dsimp only at hs
          cases hq : s.invocations with
          | nil =>
              rw [hq] at hs
              obtain rfl := Option.some.inj hs
              exact h.work hw rfl rfl rfl (fun _ => rfl) rfl
          | cons a rest =>
              rw [hq] at hs
              obtain rfl := Option.some.inj hs
              -- the invocation moves from the queue into the worker's hands
              refine h.work hw rfl rfl rfl (fun j => ?_) ?_
              · dsimp only [State.setWorker, Worker.held]
                rw [hq, (eraseInvocation_perm a rest).count_eq, Option.toList_some,
                  List.count_cons, List.count_cons]
                exact congrArg (· + _) (Nat.add_assoc ..).symm
              · dsimp only [State.setWorker, Worker.busy]
                rw [hq, eraseInvocation_length]
                rfl
      | testing =>
          obtain rfl := Option.some.inj hs
          refine h.work hw rfl rfl rfl (fun _ => ?_) ?_ <;> cases s.isActive <;> rfl
      | entering =>
          obtain rfl := Option.some.inj hs
          exact h.work hw rfl rfl rfl (fun _ => rfl) rfl
      | looping invocation =>
          cases invocation with
          | none =>
              obtain rfl := Option.some.inj hs
              refine h.work hw rfl rfl rfl (fun _ => ?_) ?_ <;> cases s.isActive <;> rfl
          | some a =>
              obtain rfl := Option.some.inj hs
              exact h.work hw rfl rfl rfl (fun _ => rfl) rfl
      | running a =>
          obtain rfl := Option.some.inj hs
          refine h.work hw rfl rfl rfl (fun j => ?_) rfl
          dsimp only [State.setWorker, Worker.held]
          rw [List.count_append, Option.toList_some, Option.toList_none, List.count_nil]
          omega
      | leaving a =>
          obtain rfl := Option.some.inj hs
          -- the counter goes down behind the run, so it is not zero before
          refine h.work hw rfl rfl rfl (fun _ => rfl) ?_
          have hcounter := h.counter
          have hbusy := le_tally Worker.busy hw
          dsimp only [State.setWorker, Worker.busy] at hbusy ⊢
          omega
      | waiting | exited => cases hs

theorem step {a : Action ι} (h : Counted s) (hs : step s a = some s') : Counted s' := by
  cases a with
  | schedule a =>
      rw [ThreadPool.step] at hs
      split at hs
      case isFalse => cases hs
      case isTrue =>
        obtain rfl := Option.some.inj hs
        constructor
        · intro i
          have := h.total i
          dsimp only
          rw [List.count_append, List.count_append]
          omega
        · have := h.counter
          dsimp only
          rw [List.length_append]
          dsimp only [List.length]
          omega
  | queue call =>
      rw [ThreadPool.step] at hs
      split at hs
      case h_2 => cases hs
      case h_1 a ha =>
        split at hs
        case isTrue => cases hs
        case isFalse =>
          obtain rfl := Option.some.inj hs
          obtain ⟨hlt, hget⟩ := List.getElem?_eq_some_iff.1 ha
          -- from the calls that have counted it to the queue
          refine h.notify rfl (fun j => ?_) rfl rfl ?_
          · have hperm := (List.getElem_cons_eraseIdx_perm hlt).count_eq j
            rw [hget] at hperm
            dsimp only
            rw [List.count_append, List.count_singleton, ← hperm, List.count_cons]
            omega
          · dsimp only
            rw [List.length_append, List.length_eraseIdx_of_lt hlt]
            dsimp only [List.length]
            omega
  | work i => exact h.stepWorker hs
  | wake i =>
      rw [ThreadPool.step] at hs
      split at hs
      case h_1 hw =>
        obtain rfl := Option.some.inj hs
        exact h.work hw rfl rfl rfl (fun _ => rfl) rfl
      case h_2 => cases hs
  | join =>
      rw [ThreadPool.step, stepJoin] at hs
      split at hs
      · split at hs
        · obtain rfl := Option.some.inj hs
          exact ⟨h.total, h.counter⟩
        · cases hs
      · obtain rfl := Option.some.inj hs
        exact h.notify rfl (fun _ => rfl) rfl rfl rfl
      · cases hs

end Counted

/-! ### `Attended` -/

/-- The destructor runs when no `scheduleInvocation` is in progress, and a worker leaves only after
it has started. -/
structure Joined (s : State ι) : Prop where
  entering : s.isActive = false → s.entering = []
  exited : s.isActive = true → .exited ∉ s.workers

/-- The last worker to leave leaves an empty queue behind, and there is a worker for what is
scheduled. -/
def Attended (s : State ι) : Action ι → Prop
  | .schedule _ => s.workers ≠ []
  | .work i     => s.workers[i]? = some (.looping none) → s.isActive = false →
      (∀ w ∈ s.workers.eraseIdx i, w = .exited) → s.invocations = []
  | _           => True

instance (s : State ι) : DecidablePred (Attended s)
  | .schedule _         => inferInstanceAs (Decidable (_ ≠ _))
  | .work _             => inferInstanceAs (Decidable (_ → _ → _ → _))
  | .queue _ | .wake _ | .join => inferInstanceAs (Decidable True)

/-- What the executor promises: an invocation is executed at most once, `m_taskCounter` is
the number of those entering, queued or running, and when the workers have left every scheduled
one has been executed. -/
structure Sound (s : State ι) : Prop where
  once : ∀ i, s.executed.count i ≤ s.scheduled.count i
  counter : s.taskCounter =
    s.entering.length + s.invocations.length + tally Worker.busy s.workers
  drained : (∀ w ∈ s.workers, w = .exited) →
    (∀ i, s.executed.count i = s.scheduled.count i) ∧ s.taskCounter = 0

variable {s s' : State ι}

omit [DecidableEq ι] in
theorem Worker.notified_eq_exited {w : Worker ι} : w.notified = exited ↔ w = exited := by
  cases w <;> simp [notified]

omit [DecidableEq ι] in
/-- A worker leaves only at the condition of its loop. -/
theorem exited_of_stepWorker {i : Nat} (hs : stepWorker s i = some s') :
    ∃ w w', s.workers[i]? = some w ∧ s'.workers = s.workers.set i w' ∧ s'.join = s.join ∧
      s'.entering = s.entering ∧
      (w' = .exited → w = .looping none ∧ s.isActive = false ∧ s'.invocations = s.invocations) := by
  rw [stepWorker] at hs
  cases hw : s.workers[i]? with
  | none =>
      rw [hw] at hs
      cases hs
  | some w =>
      rw [hw] at hs
      cases w with
      | outside | woken =>
          dsimp only at hs
          split at hs
          · cases hs
          · obtain rfl := Option.some.inj hs
            exact ⟨_, _, rfl, rfl, rfl, rfl, nofun⟩
      | body =>
          dsimp only at hs
          split at hs <;> obtain rfl := Option.some.inj hs <;>
            exact ⟨_, _, rfl, rfl, rfl, rfl, nofun⟩
      | testing =>
          obtain rfl := Option.some.inj hs
          refine ⟨_, _, rfl, rfl, rfl, rfl, fun he => ?_⟩
          cases ha : s.isActive <;> rw [ha] at he <;> cases he
      | looping invocation =>
          cases invocation with
          | none =>
              obtain rfl := Option.some.inj hs
              refine ⟨_, _, rfl, rfl, rfl, rfl, fun he => ⟨rfl, ?_, rfl⟩⟩
              cases ha : s.isActive with
              | false => rfl
              | true =>
                  rw [ha] at he
                  cases he
          | some a =>
              obtain rfl := Option.some.inj hs
              exact ⟨_, _, rfl, rfl, rfl, rfl, nofun⟩
      | entering | running a | leaving a =>
          obtain rfl := Option.some.inj hs
          exact ⟨_, _, rfl, rfl, rfl, rfl, nofun⟩
      | waiting | exited => cases hs

omit [DecidableEq ι] in
/-- All workers have left after one of them was set: the others had left before. -/
theorem forall_set_exited {l : List (Worker ι)} {i : Nat} {w w' : Worker ι} (hw : l[i]? = some w)
    (h : ∀ v ∈ l.set i w', v = .exited) : w' = .exited ∧ ∀ v ∈ l.eraseIdx i, v = .exited := by
  obtain ⟨hlt, -⟩ := List.getElem?_eq_some_iff.1 hw
  rw [List.set_eq_take_append_cons_drop, if_pos hlt] at h
  refine ⟨h w' (List.mem_append_right _ List.mem_cons_self), fun v hv => ?_⟩
  rw [List.eraseIdx_eq_take_drop_succ, List.mem_append] at hv
  rcases hv with hv | hv
  · exact h v (List.mem_append_left _ hv)
  · exact h v (List.mem_append_right _ (List.mem_cons_of_mem _ hv))

omit [DecidableEq ι] in
theorem set_exited {l : List (Worker ι)} {i : Nat} (h : ∀ v ∈ l.eraseIdx i, v = .exited) :
    ∀ v ∈ l.set i .exited, v = .exited := by
  intro v hv
  by_cases hlt : i < l.length
  · rw [List.set_eq_take_append_cons_drop, if_pos hlt, List.mem_append, List.mem_cons] at hv
    rw [List.eraseIdx_eq_take_drop_succ] at h
    rcases hv with hv | hv | hv
    · exact h v (List.mem_append_left _ hv)
    · exact hv
    · exact h v (List.mem_append_right _ hv)
  · rw [List.set_eq_of_length_le (Nat.le_of_not_lt hlt)] at hv
    exact h v (by rwa [List.eraseIdx_of_length_le (Nat.le_of_not_lt hlt)])

omit [DecidableEq ι] in
theorem Joined.init (threadsCount : Nat) : Joined (initial ι threadsCount) where
  entering ha := nomatch ha
  exited _ hw := nomatch (List.mem_replicate.1 hw).2

omit [DecidableEq ι] in
theorem forall_notified {l : List (Worker ι)} :
    (∀ w ∈ l.map Worker.notified, w = .exited) ↔ ∀ w ∈ l, w = .exited := by
  simp only [List.forall_mem_map, Worker.notified_eq_exited]

omit [DecidableEq ι] in
theorem exited_mem_notified {l : List (Worker ι)} :
    Worker.exited ∈ l.map Worker.notified ↔ Worker.exited ∈ l := by
  simp only [List.mem_map, Worker.notified_eq_exited, exists_eq_right]

omit [DecidableEq ι] in
theorem Joined.step {a : Action ι} (h : Joined s) (hs : step s a = some s') : Joined s' := by
  cases a with
  | schedule a =>
      rw [ThreadPool.step] at hs
      split at hs
      case isFalse => cases hs
      case isTrue ha =>
        obtain rfl := Option.some.inj hs
        exact ⟨fun hf => absurd ha (ne_true_of_eq_false hf), h.exited⟩
  | queue call =>
      rw [ThreadPool.step] at hs
      split at hs
      case h_2 => cases hs
      case h_1 a ha =>
        split at hs
        case isTrue => cases hs
        case isFalse =>
          obtain rfl := Option.some.inj hs
          refine ⟨fun hf => ?_, fun hact he => h.exited hact (exited_mem_notified.1 he)⟩
          have hnil : s.entering = [] := h.entering hf
          rw [hnil] at ha
          cases ha
  | work i =>
      obtain ⟨w, w', hw, hworkers, hjoin, hentering, hexit⟩ := exited_of_stepWorker hs
      have hactive : s'.isActive = s.isActive := by rw [State.isActive, hjoin]; rfl
      refine ⟨fun hf => hentering.trans (h.entering (hactive ▸ hf)), fun hact hv => ?_⟩
      rw [hactive] at hact
      rw [hworkers] at hv
      rcases List.mem_or_eq_of_mem_set hv with hv | hv
      · exact h.exited hact hv
      · -- a worker leaves only when the pool is not active any more
        cases hact.symm.trans (hexit hv.symm).2.1
  | wake i =>
      rw [ThreadPool.step] at hs
      split at hs
      case h_2 => cases hs
      case h_1 =>
        obtain rfl := Option.some.inj hs
        refine ⟨h.entering, fun hact hv => ?_⟩
        rcases List.mem_or_eq_of_mem_set hv with hv | hv
        · exact h.exited hact hv
        · cases hv
  | join =>
      rw [ThreadPool.step, stepJoin] at hs
      split at hs
      case h_1 hj =>
        split at hs
        case isFalse => cases hs
        case isTrue he =>
          obtain rfl := Option.some.inj hs
          exact ⟨fun _ => List.isEmpty_iff.1 he, fun hact => by cases hact⟩
      case h_2 hj =>
        obtain rfl := Option.some.inj hs
        refine ⟨fun _ => h.entering ?_, fun hact => by cases hact⟩
        rw [State.isActive, hj]
      case h_3 => cases hs

/-- Nothing is left when the workers have. -/
def Drained (s : State ι) : Prop :=
  (∀ w ∈ s.workers, w = .exited) → s.entering = [] ∧ s.invocations = []

omit [DecidableEq ι] in
theorem Drained.step {a : Action ι} (h : Drained s) (hj : Joined s) (ha : Attended s a)
    (hs : step s a = some s') : Drained s' := by
  intro hall
  cases a with
  | schedule a =>
      rw [ThreadPool.step] at hs
      split at hs
      case isFalse => cases hs
      case isTrue hact =>
        obtain rfl := Option.some.inj hs
        obtain ⟨w, hw⟩ := List.exists_mem_of_ne_nil _ ha
        exact absurd (hall w hw ▸ hw) (hj.exited hact)
  | queue call =>
      rw [ThreadPool.step] at hs
      split at hs
      case h_2 => cases hs
      case h_1 a hcall =>
        split at hs
        case isTrue => cases hs
        case isFalse =>
          obtain rfl := Option.some.inj hs
          rw [(h (forall_notified.1 hall)).1] at hcall
          cases hcall
  | work i =>
      obtain ⟨w, w', hw, hworkers, hjoin, hentering, hexit⟩ := exited_of_stepWorker hs
      rw [hworkers] at hall
      obtain ⟨hw', hrest⟩ := forall_set_exited hw hall
      obtain ⟨rfl, hact, hinv⟩ := hexit hw'
      exact ⟨hentering.trans (hj.entering hact), hinv.trans (ha hw hact hrest)⟩
  | wake i =>
      rw [ThreadPool.step] at hs
      split at hs
      case h_2 => cases hs
      case h_1 hw =>
        obtain rfl := Option.some.inj hs
        cases (forall_set_exited hw hall).1
  | join =>
      rw [ThreadPool.step, stepJoin] at hs
      split at hs
      case h_1 =>
        split at hs
        case isFalse => cases hs
        case isTrue =>
          obtain rfl := Option.some.inj hs
          exact h hall
      case h_2 =>
        obtain rfl := Option.some.inj hs
        exact h (forall_notified.1 hall)
      case h_3 => cases hs

/-- What is counted and drained is sound. -/
theorem Counted.sound (h : Counted s) (hd : Drained s) : Sound s where
  once i := by
    have := h.total i
    omega
  counter := h.counter
  drained hall := by
    obtain ⟨hentering, hinv⟩ := hd hall
    have hzero : ∀ f : Worker ι → Nat, f .exited = 0 → tally f s.workers = 0 := by
      intro f hf
      exact tally_eq_zero.2 fun w hw => by rw [hall w hw, hf]
    constructor
    · intro i
      have htotal := h.total i
      rw [hentering, hinv, hzero _ rfl] at htotal
      simpa using htotal
    · rw [h.counter, hentering, hinv, hzero _ rfl]
      rfl

/-- A step that is not attended leaves an invocation behind. -/
theorem not_sound {a : Action ι} (h : Counted s') (hs : step s a = some s')
    (ha : ¬ Attended s a) : ¬ Sound s' := by
  intro hsound
  have hcounter := h.counter
  cases a with
  | schedule a =>
      rw [Attended, not_not] at ha
      rw [ThreadPool.step] at hs
      split at hs
      case isFalse => cases hs
      case isTrue =>
        obtain rfl := Option.some.inj hs
        have hzero := (hsound.drained fun w hw => by rw [ha] at hw; cases hw).2
        cases hzero
  | work i =>
      simp only [Attended, not_forall] at ha
      obtain ⟨hloop, hact, hrest, hne⟩ := ha
      rw [ThreadPool.step, stepWorker, hloop] at hs
      dsimp only at hs
      rw [hact] at hs
      obtain rfl := Option.some.inj hs
      have hzero := (hsound.drained (set_exited hrest)).2
      have hlength : s.invocations.length = 0 := by
        rw [hcounter] at hzero
        exact (Nat.add_eq_zero_iff.1 (Nat.add_eq_zero_iff.1 hzero).1).2
      exact hne (List.length_eq_zero_iff.1 hlength)
  | queue | wake | join => exact ha trivial

/-- **The executor is sound in every attended run**, and a step that is not attended leads where
it is not. -/
theorem sound_of_attended (threadsCount : Nat) :
    (∀ s, Steps step Attended (initial ι threadsCount) s → Sound s) ∧
    ∀ s a s', Steps step Free (initial ι threadsCount) s → step s a = some s' →
      ¬ Attended s a → ¬ Sound s' := by
  constructor
  · intro s h
    have hinv : Counted s ∧ Joined s ∧ Drained s :=
      h.invariant (P := fun s => Counted s ∧ Joined s ∧ Drained s)
        (fun ⟨hc, hj, hd⟩ ha hs => ⟨hc.step hs, hj.step hs, hd.step hj ha hs⟩)
        ⟨Counted.init _, Joined.init _, fun _ => ⟨rfl, rfl⟩⟩
    exact hinv.1.sound hinv.2.2
  · intro s a s' h hs ha
    have hcounted : Counted s := h.invariant (fun hc _ hs => hc.step hs) (Counted.init _)
    exact not_sound (hcounted.step hs) hs ha

/-- The one worker runs the invocation before it leaves. -/
theorem sound_of_one : ∃ s : State Unit, s.workers = [.exited] ∧ s.executed = [()] ∧ Sound s := by
  obtain ⟨s, hs, ho, hw, he⟩ : ∃ s, exec step (initial Unit 1)
      ([.schedule (), .queue 0, .join, .join] ++ List.replicate 9 (.work 0)) = some s ∧
      Allowed step Attended (initial Unit 1)
        ([.schedule (), .queue 0, .join, .join] ++ List.replicate 9 (.work 0)) ∧
      s.workers = [.exited] ∧ s.executed = [()] := ⟨_, rfl, by decide, rfl, rfl⟩
  exact ⟨s, hw, he, (sound_of_attended 1).1 s (exec_steps ho hs)⟩

/-- The one worker waits, is notified of an invocation, and finds `m_isActive` cleared. -/
theorem lost_by_one : ∃ s : State Unit, Steps step Free (initial Unit 1) s ∧
    s.workers = [.exited] ∧ s.scheduled = [()] ∧ s.executed = [] ∧ s.taskCounter = 1 := by
  obtain ⟨s, hs, h⟩ : ∃ s, exec step (initial Unit 1)
      (List.replicate 4 (.work 0) ++ [.schedule (), .queue 0, .join, .work 0, .work 0]) = some s ∧
      s.workers = [.exited] ∧ s.scheduled = [()] ∧ s.executed = [] ∧ s.taskCounter = 1 :=
    ⟨_, rfl, rfl, rfl, rfl, rfl⟩
  exact ⟨s, exec_steps (allowed_free _ _) hs, h⟩

end MyEngine.Async.ThreadPool
