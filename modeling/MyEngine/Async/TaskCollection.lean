import MyEngine.Async.CoreTask
import MyEngine.Support.Replace
import MyEngine.Support.Tally
import Mathlib.Data.Nat.Notation

/-!
# Async — TaskCollection

`task_collection.cpp`, with the threads, the tasks, the calls of `awaitCompletionInternal` and the
awaiters that it makes by their numbers.  What is done under `m_mutex` is one step.

* `Place`: where a thread stands in a call, and in the completion of a task.
* `Ledger`: a task in `m_tasks` has one ready callback, which is being set, is stored, or runs.
-/

namespace MyEngine.Async.TaskCollection

open Runs

/-- The core tasks; their only ready callback is the one of the collection. -/
abbrev Core := CoreTask Unit Unit Unit Unit

/-- The places of `push`, of `CoreTaskImpl::tryResolveInternal` with the callback, and of
`awaitCompletionInternal`. -/
inductive Place where
  | idle
  | push (task : ℕ)
  | pushInternal (task : ℕ)
  | enter (task : ℕ)
  | setReadyCallback (task : ℕ)
  | tryResolve (task : ℕ) (error : Option (Option Unit))
  | invokeReadyCallback (task : ℕ)
  | callback (task : ℕ)
  | begin (dispose : Bool) (wait : ℕ)
  | look (dispose : Bool) (wait : ℕ)
  | awaiting (dispose : Bool) (wait awaiter : ℕ)
  | leave (wait : ℕ)
  deriving DecidableEq

/-- `entered` and `removed` are the tasks that have come into `m_tasks` and have gone; `awaiters`
counts how often each has been resolved, and `completed` are the calls of `awaitCompletion` and
`disposeAsync` whose task is ready. -/
structure State where
  tasks : List Core
  entries : List ℕ := []
  closeAwaiter : Option ℕ := none
  isDisposing : Bool := false
  isDisposed : Bool := false
  pushed : List ℕ := []
  entered : List ℕ := []
  removed : List ℕ := []
  awaiters : List ℕ := []
  waits : ℕ := 0
  completed : List ℕ := []
  threads : List Place
  deriving DecidableEq

inductive Action where
  | push (thread task : ℕ)
  | complete (thread task : ℕ) (error : Option (Option Unit))
  | awaitCompletion (thread : ℕ) (dispose : Bool)
  | work (thread : ℕ)

namespace State

def setPlace (s : State) (thread : ℕ) (place : Place) : State :=
  { s with threads := s.threads.set thread place }

def isReady (s : State) (task : ℕ) : Bool := s.tasks[task]?.any (·.flags.ready)

def setTask (s : State) (task : ℕ) (core : Core) : State :=
  { s with tasks := s.tasks.set task core }

/-- The awaiter is resolved, if the last task has gone. -/
def resolveAwaiter (s : State) : State :=
  match s.closeAwaiter with
  | some awaiter =>
      if s.entries = [] then
        { s with closeAwaiter := none, awaiters := s.awaiters.modify awaiter (· + 1) }
      else s
  | none         => s

/-- The section of the ready callback. -/
def remove (s : State) (task : ℕ) : State :=
  let s :=
    if task ∈ s.entries then
      { s with entries := s.entries.erase task, removed := s.removed ++ [task] }
    else s
  s.resolveAwaiter

end State

/-- The next operation of a thread in a call. -/
def work (s : State) (thread : ℕ) : Place → Option State
  | .idle                       => none
  | .push task                  =>
      some (s.setPlace thread (if s.isReady task then .idle else .pushInternal task))
  | .pushInternal task          =>
      some (s.setPlace thread (if s.isReady task then .idle else .enter task))
  | .enter task                 =>
      some (State.setPlace { s with entries := s.entries ++ [task], entered := s.entered ++ [task] }
        thread (.setReadyCallback task))
  | .setReadyCallback task      =>
      s.tasks[task]?.map fun core =>
        let (callback, core) := core.setReadyCallback (some ())
        (s.setTask task core).setPlace thread
          (if callback.isSome then .callback task else .idle)
  | .tryResolve task error      =>
      s.tasks[task]?.map fun core =>
        match core.tryResolve error with
        | none      => s.setPlace thread .idle
        | some core => (s.setTask task core).setPlace thread (.invokeReadyCallback task)
  | .invokeReadyCallback task   =>
      s.tasks[task]?.map fun core =>
        let (callback, core) := core.takeReadyCallback
        (s.setTask task core).setPlace thread
          (if callback.isSome then .callback task else .idle)
  | .callback task              => some ((s.remove task).setPlace thread .idle)
  | .begin dispose wait         =>
      if s.isDisposing then
        some (State.setPlace { s with completed := s.completed ++ [wait] } thread .idle)
      else some (State.setPlace { s with isDisposing := true } thread (.look dispose wait))
  | .look dispose wait          =>
      if s.entries = [] then
        some (State.setPlace { s with isDisposed := s.isDisposed || dispose } thread (.leave wait))
      else
        some (State.setPlace
          { s with closeAwaiter := some s.awaiters.length, awaiters := s.awaiters ++ [0] } thread
          (.awaiting dispose wait s.awaiters.length))
  | .awaiting dispose wait awaiter =>
      if s.awaiters[awaiter]?.any (0 < ·) then some (s.setPlace thread (.look dispose wait))
      else none
  | .leave wait                 =>
      some (State.setPlace { s with isDisposing := false, completed := s.completed ++ [wait] }
        thread .idle)

/-- A task is moved into `push`, and so can be pushed once. -/
def step (s : State) : Action → Option State
  | .push thread task             =>
      if s.threads[thread]? = some .idle ∧ task < s.tasks.length ∧ task ∉ s.pushed then
        some (State.setPlace { s with pushed := s.pushed ++ [task] } thread (.push task))
      else none
  | .complete thread task error   =>
      if s.threads[thread]? = some .idle then some (s.setPlace thread (.tryResolve task error))
      else none
  | .awaitCompletion thread dispose =>
      if s.threads[thread]? = some .idle then
        some (State.setPlace { s with waits := s.waits + 1 } thread (.begin dispose s.waits))
      else none
  | .work thread                  => s.threads[thread]?.bind (work s thread)

def initial (tasks threads : ℕ) : State where
  tasks := .replicate tasks {}
  threads := .replicate threads .idle

/-! ### Callbacks -/

namespace Place

/-- The push of the task has not entered it yet. -/
def pushing (task : ℕ) : Place → ℕ
  | push t | pushInternal t | enter t => if t = task then 1 else 0
  | _                                 => 0

/-- The callback of the task is about to be set, or to run. -/
def calling (task : ℕ) : Place → ℕ
  | setReadyCallback t | callback t => if t = task then 1 else 0
  | _                               => 0

/-- The task is ready there. -/
def done : Place → Option ℕ
  | invokeReadyCallback t | callback t => some t
  | _                                  => none

/-- The call of `awaitCompletionInternal` stands there. -/
def waiting (wait : ℕ) : Place → ℕ
  | begin _ w | look _ w | awaiting _ w _ | leave w => if w = wait then 1 else 0
  | _                                               => 0

end Place

def State.stored (s : State) (task : ℕ) : ℕ :=
  if s.tasks[task]?.any (·.readyCallback.isSome) then 1 else 0

/-- What is known of each task: it is entered once at most, it is in `m_tasks` as long as its
callback is somewhere, and that is called when the task is ready. -/
structure Ledger (s : State) : Prop where
  pushed : s.pushed.Nodup
  entered : ∀ task, s.entered.count task + tally (Place.pushing task) s.threads ≤
    s.pushed.count task
  entries : ∀ task, s.entries.count task + s.removed.count task = s.entered.count task
  callback : ∀ task, tally (Place.calling task) s.threads + s.stored task + s.removed.count task =
    s.entered.count task
  done : ∀ place ∈ s.threads, ∀ task, place.done = some task → s.isReady task = true
  removed : ∀ task ∈ s.removed, s.isReady task = true
  taken : ∀ task, s.stored task = 1 → s.isReady task = true →
    .invokeReadyCallback task ∈ s.threads

/-- Every awaiter has been resolved once at most, and the one in `m_closeAwaiter` not yet. -/
structure Awaiters (s : State) : Prop where
  once : ∀ count ∈ s.awaiters, count ≤ 1
  fresh : ∀ awaiter, s.closeAwaiter = some awaiter → s.awaiters[awaiter]? = some 0

/-- A call is somewhere in the code, or its task is ready. -/
def Waits (s : State) : Prop :=
  ∀ wait, tally (Place.waiting wait) s.threads + s.completed.count wait =
    if wait < s.waits then 1 else 0

/-! ### What the operations leave behind -/

section

variable {s s' : State} {thread task : ℕ} {old new : Place} {core core' : Core}

theorem isReady_of (hcore : s.tasks[task]? = some core) : s.isReady task = core.flags.ready := by
  rw [State.isReady, hcore, Option.any_some]

theorem stored_of (hcore : s.tasks[task]? = some core) :
    s.stored task = if core.readyCallback.isSome then 1 else 0 := by
  rw [State.stored, hcore, Option.any_some]

theorem setTask_self (hcore : s.tasks[task]? = some core) :
    (s.setTask task core').tasks[task]? = some core' :=
  getElem?_replaced hcore core'

theorem isReady_setTask_ne {other : ℕ} (h : other ≠ task) :
    (s.setTask task core').isReady other = s.isReady other := by
  rw [State.isReady, State.setTask, List.getElem?_set_ne h.symm, State.isReady]

theorem stored_setTask_ne {other : ℕ} (h : other ≠ task) :
    (s.setTask task core').stored other = s.stored other := by
  rw [State.stored, State.setTask, List.getElem?_set_ne h.symm, State.stored]

theorem resolveAwaiter_frame (s : State) : s.resolveAwaiter.entries = s.entries ∧
    s.resolveAwaiter.removed = s.removed ∧ s.resolveAwaiter.entered = s.entered ∧
    s.resolveAwaiter.pushed = s.pushed ∧ s.resolveAwaiter.tasks = s.tasks ∧
    s.resolveAwaiter.threads = s.threads ∧ s.resolveAwaiter.completed = s.completed ∧
    s.resolveAwaiter.waits = s.waits := by
  rw [State.resolveAwaiter]
  split
  · split <;> exact ⟨rfl, rfl, rfl, rfl, rfl, rfl, rfl, rfl⟩
  · exact ⟨rfl, rfl, rfl, rfl, rfl, rfl, rfl, rfl⟩

namespace Ledger

theorem init (tasks threads : ℕ) : Ledger (initial tasks threads) := by
  have hidle : ∀ place ∈ (initial tasks threads).threads, place = .idle :=
    fun place hplace => List.eq_of_mem_replicate hplace
  have hzero : ∀ weight : Place → ℕ, weight .idle = 0 →
      tally weight (initial tasks threads).threads = 0 := by
    intro weight hweight
    refine tally_eq_zero.2 fun place hplace => ?_
    rw [hidle place hplace, hweight]
  have hstored : ∀ task, (initial tasks threads).stored task = 0 := by
    intro task
    rw [State.stored, if_neg]
    intro hany
    rw [Option.any_eq_true] at hany
    obtain ⟨core, hcore, hcallback⟩ := hany
    obtain rfl := List.eq_of_mem_replicate (List.mem_of_getElem? hcore)
    cases hcallback
  refine ⟨List.nodup_nil, fun task => ?_, fun _ => rfl, fun task => ?_,
    fun place hplace task hdone => ?_, fun _ h => ?_, fun task h => ?_⟩
  · rw [hzero _ rfl]
    exact Nat.le_refl 0
  · rw [hzero _ rfl, hstored]
    rfl
  · rw [hidle place hplace] at hdone
    cases hdone
  · cases h
  · rw [hstored] at h
    cases h

/-- A step of one thread: what the ledger speaks of moves between the place and the lists. -/
theorem move (h : Ledger s) (hplace : s.threads[thread]? = some old)
    (hthreads : s'.threads = s.threads.set thread new) (hpushed : s'.pushed = s.pushed)
    (hentered : ∀ task, s'.entered.count task + new.pushing task ≤
      s.entered.count task + old.pushing task)
    (hentries : ∀ task, s'.entries.count task + s'.removed.count task = s'.entered.count task)
    (hcallback : ∀ task,
      new.calling task + s'.stored task + s'.removed.count task + s.entered.count task =
        old.calling task + s.stored task + s.removed.count task + s'.entered.count task)
    (hready : ∀ task, s.isReady task = true → s'.isReady task = true)
    (hdone : ∀ task, new.done = some task → s'.isReady task = true)
    (hremoved : ∀ task ∈ s'.removed, task ∈ s.removed ∨ s'.isReady task = true)
    (htaken : ∀ task, s'.stored task = 1 → s'.isReady task = true →
      new = .invokeReadyCallback task ∨
        old ≠ .invokeReadyCallback task ∧ s.stored task = 1 ∧ s.isReady task = true) :
    Ledger s' := by
  have hlt := (List.getElem?_eq_some_iff.1 hplace).1
  refine ⟨hpushed ▸ h.pushed, fun task => ?_, hentries, fun task => ?_, ?_, ?_, ?_⟩
  · have hset := tally_set (Place.pushing task) hplace new
    have hpush := h.entered task
    have hnew := hentered task
    rw [hthreads, hpushed]
    omega
  · have hset := tally_set (Place.calling task) hplace new
    have hold := h.callback task
    have hnew := hcallback task
    rw [hthreads]
    omega
  · rw [hthreads]
    exact forall_mem_set (fun place hmem task hplace => hready task (h.done place hmem task hplace))
      hdone
  · intro task hmem
    exact (hremoved task hmem).elim (fun hmem => hready task (h.removed task hmem)) id
  · intro task hstored hisReady
    rw [hthreads]
    rcases htaken task hstored hisReady with rfl | ⟨hne, hstored, hisReady⟩
    · exact List.mem_set hlt _
    · exact (eq_or_mem_set hplace (h.taken task hstored hisReady) new).resolve_left (Ne.symm hne)

/-- One that moves nothing. -/
theorem walk (h : Ledger s) (hplace : s.threads[thread]? = some old)
    (hthreads : s'.threads = s.threads.set thread new) (htasks : s'.tasks = s.tasks)
    (hpushed : s'.pushed = s.pushed) (hentered : s'.entered = s.entered)
    (hentries : s'.entries = s.entries) (hremoved : s'.removed = s.removed)
    (hpushing : ∀ task, new.pushing task ≤ old.pushing task)
    (hcalling : ∀ task, new.calling task = old.calling task) (hdone : new.done = none)
    (hold : old.done = none) : Ledger s' := by
  have hready : ∀ task, s'.isReady task = s.isReady task := by
    intro task
    rw [State.isReady, htasks, State.isReady]
  have hstored : ∀ task, s'.stored task = s.stored task := by
    intro task
    rw [State.stored, htasks, State.stored]
  refine h.move hplace hthreads hpushed (fun task => ?_) (fun task => ?_) (fun task => ?_)
    (fun task => (hready task).symm ▸ id) (fun task hnew => ?_) (fun task hmem => ?_)
    fun task hst hre => ?_
  · rw [hentered]
    exact Nat.add_le_add_left (hpushing task) _
  · rw [hentries, hremoved, hentered]
    exact h.entries task
  · rw [hcalling, hstored, hremoved, hentered]
  · rw [hdone] at hnew
    cases hnew
  · exact .inl (hremoved ▸ hmem)
  · refine .inr ⟨?_, hstored task ▸ hst, hready task ▸ hre⟩
    rintro rfl
    cases hold

/-- One that changes the core task the place is about. -/
theorem touch (h : Ledger s) (hcore : s.tasks[task]? = some core)
    (hplace : s.threads[thread]? = some old)
    (hpushing : ∀ other, new.pushing other ≤ old.pushing other)
    (hready : core.flags.ready = true → core'.flags.ready = true)
    (hcalling : new.calling task + (if core'.readyCallback.isSome then 1 else 0) =
      old.calling task + if core.readyCallback.isSome then 1 else 0)
    (hother : ∀ other, other ≠ task → new.calling other = old.calling other ∧
      new.done ≠ some other ∧ old ≠ .invokeReadyCallback other)
    (hdone : new.done = some task → core'.flags.ready = true)
    (htaken : core'.readyCallback.isSome = true → core'.flags.ready = true →
      new = .invokeReadyCallback task ∨ old ≠ .invokeReadyCallback task ∧
        core.readyCallback.isSome = true ∧ core.flags.ready = true) :
    Ledger ((s.setTask task core').setPlace thread new) := by
  have hself : ((s.setTask task core').setPlace thread new).tasks[task]? = some core' :=
    setTask_self hcore
  have hisReady : ∀ other, other ≠ task →
      ((s.setTask task core').setPlace thread new).isReady other = s.isReady other :=
    fun other hne => isReady_setTask_ne hne
  have hstored : ∀ other, other ≠ task →
      ((s.setTask task core').setPlace thread new).stored other = s.stored other :=
    fun other hne => stored_setTask_ne hne
  refine h.move hplace rfl rfl (fun other => Nat.add_le_add_left (hpushing other) _) h.entries
    (fun other => ?_) (fun other hre => ?_) (fun other hnew => ?_) (fun _ => .inl)
    fun other hst hre => ?_
  · change _ + _ + s.removed.count other + s.entered.count other = _ + _ + _ + s.entered.count other
    by_cases hne : other = task
    · subst hne
      rw [stored_of hself, stored_of hcore, hcalling]
    · rw [hstored other hne, (hother other hne).1]
  · by_cases hne : other = task
    · subst hne
      rw [isReady_of hself]
      exact hready (isReady_of hcore ▸ hre)
    · rwa [hisReady other hne]
  · by_cases hne : other = task
    · subst hne
      rw [isReady_of hself]
      exact hdone hnew
    · exact absurd hnew (hother other hne).2.1
  · by_cases hne : other = task
    · subst hne
      rw [stored_of hself] at hst
      rw [isReady_of hself] at hre
      have hcallback : core'.readyCallback.isSome = true := by
        by_contra hnot
        rw [if_neg hnot] at hst
        cases hst
      refine (htaken hcallback hre).imp_right fun hold => ⟨hold.1, ?_, ?_⟩
      · rw [stored_of hcore, if_pos hold.2.1]
      · rw [isReady_of hcore, hold.2.2]
    · rw [hstored other hne] at hst
      rw [hisReady other hne] at hre
      exact .inr ⟨(hother other hne).2.2, hst, hre⟩

end Ledger

end

end MyEngine.Async.TaskCollection
