import Mathlib.Data.List.Nodup
import Mathlib.Logic.Function.Basic
import MyEngine.Async.CoreTask

/-!
# Async — WhenAll

`whenAllInternal` and `whenAnyInternal` of `task.cpp`: the coroutine that registers a ready
callback on every task of the list, the threads that complete the tasks, and the expiration.

* `CoreTaskLinkedList`: the list threaded through the tasks.
* `Caller`, `Call`: who runs a callback of the awaiter state, and where it stands.
* `Reset`: where the one call of `CoreTaskLinkedList::reset` stands, and what `resolve` does
  behind it.
* `step`: the threads, one operation at a time.

A ready callback in a task is one that refers to the awaiter state.
-/

namespace MyEngine.Async.WhenAll

open Runs

/-- `whenAllInternal` or `whenAnyInternal`. -/
inductive Mode where
  | all
  | any
  deriving DecidableEq, Repr

/-- A task as far as the list goes: its flags and its ready callback. -/
abbrev Listed := CoreTask Empty Empty Unit Empty

/-! ### `CoreTaskLinkedList` -/

/-- The list: its head and size, the `m_next` of the tasks, and the references it took. -/
structure CoreTaskLinkedList (ι : Type) where
  head : Option ι := none
  size : Nat := 0
  next : ι → Option ι := fun _ => none
  taken : ι → Nat := fun _ => 0

section

variable {ι : Type} [DecidableEq ι]

/-- One round of the loop of the constructor; `prev` is the task of the round before. -/
def CoreTaskLinkedList.add (list : CoreTaskLinkedList ι) (prev : Option ι) (task : ι) :
    CoreTaskLinkedList ι where
  head := list.head.or (some task)
  size := list.size + 1
  next := prev.elim list.next fun p => Function.update list.next p (some task)
  taken := Function.update list.taken task (list.taken task + 1)

/-- The loop of the constructor. -/
def CoreTaskLinkedList.addAll (list : CoreTaskLinkedList ι) (prev : Option ι) :
    List ι → CoreTaskLinkedList ι
  | []            => list
  | task :: tasks => (list.add prev task).addAll (some task) tasks

def CoreTaskLinkedList.ofTasks (tasks : List ι) : CoreTaskLinkedList ι :=
  CoreTaskLinkedList.addAll {} none tasks

namespace CoreTaskLinkedList

variable {list : CoreTaskLinkedList ι} {prev : Option ι} {tasks : List ι}

theorem addAll_cons (list : CoreTaskLinkedList ι) (prev : Option ι) (task : ι)
    (tasks : List ι) :
    list.addAll prev (task :: tasks) = (list.add prev task).addAll (some task) tasks := rfl

theorem addAll_head (list : CoreTaskLinkedList ι) (prev : Option ι) (tasks : List ι) :
    (list.addAll prev tasks).head = list.head.or tasks.head? := by
  induction tasks generalizing list prev with
  | nil => rw [addAll, List.head?_nil, Option.or_none]
  | cons task tasks ih =>
      rw [addAll_cons, ih, add, List.head?_cons]
      cases list.head <;> rfl

theorem addAll_size (list : CoreTaskLinkedList ι) (prev : Option ι) (tasks : List ι) :
    (list.addAll prev tasks).size = list.size + tasks.length := by
  induction tasks generalizing list prev with
  | nil => rfl
  | cons task tasks ih =>
      rw [addAll_cons, ih, List.length_cons]
      dsimp only [add]
      omega

theorem addAll_taken (list : CoreTaskLinkedList ι) (prev : Option ι) (tasks : List ι) (t : ι) :
    (list.addAll prev tasks).taken t = list.taken t + tasks.count t := by
  induction tasks generalizing list prev with
  | nil => rfl
  | cons task tasks ih =>
      rw [addAll_cons, ih]
      dsimp only [add]
      by_cases h : t = task
      · rw [h, Function.update_self, List.count_cons_self]
        omega
      · rw [Function.update_of_ne h, List.count_cons_of_ne (Ne.symm h)]

theorem add_next_of_ne {t task : ι} (h : prev ≠ some t) :
    (list.add prev task).next t = list.next t := by
  cases prev with
  | none => rfl
  | some p => exact Function.update_of_ne (fun he => h (congrArg some he.symm)) _ _

/-- A task that is behind the end of the list so far is linked to no other. -/
theorem addAll_next_of_notMem {t : ι} (h : prev ≠ some t) (ht : t ∉ tasks) :
    (list.addAll prev tasks).next t = list.next t := by
  induction tasks generalizing list prev with
  | nil => rfl
  | cons task tasks ih =>
      simp only [List.mem_cons, not_or] at ht
      rw [addAll_cons, ih (fun he => ht.1 (Option.some.inj he).symm) ht.2, add_next_of_ne h]

theorem addAll_next_prev {t : ι} (ht : t ∉ tasks) (hnext : list.next t = none) :
    (list.addAll (some t) tasks).next t = tasks.head? := by
  cases tasks with
  | nil => exact hnext
  | cons task tasks =>
      simp only [List.mem_cons, not_or] at ht
      rw [addAll_cons, addAll_next_of_notMem (fun he => ht.1 (Option.some.inj he).symm) ht.2, add]
      exact Function.update_self ..

/-- Each task is linked to the one behind it. -/
theorem addAll_next {a b : List ι} {t : ι} (hnodup : (a ++ t :: b).Nodup)
    (hnext : ∀ u ∈ a ++ t :: b, list.next u = none) (hprev : ∀ u ∈ prev, u ∉ a ++ t :: b) :
    (list.addAll prev (a ++ t :: b)).next t = b.head? := by
  induction a generalizing list prev with
  | nil =>
      have hne : prev ≠ some t := fun he => hprev t he List.mem_cons_self
      refine addAll_next_prev (List.nodup_cons.1 hnodup).1 ?_
      rw [add_next_of_ne hne, hnext t List.mem_cons_self]
  | cons x a ih =>
      have ⟨hx, hnodup⟩ := List.nodup_cons.1 hnodup
      refine ih hnodup (fun u hu => ?_) fun u hu => ?_
      · rw [add_next_of_ne fun he => hprev u he (List.mem_cons_of_mem x hu)]
        exact hnext u (List.mem_cons_of_mem x hu)
      · exact Option.some.inj hu ▸ hx

theorem ofTasks_head (tasks : List ι) : (ofTasks tasks).head = tasks.head? := by
  rw [ofTasks, addAll_head, Option.none_or]

theorem ofTasks_size (tasks : List ι) : (ofTasks tasks).size = tasks.length := by
  rw [ofTasks, addAll_size, Nat.zero_add]

theorem ofTasks_taken (tasks : List ι) (t : ι) : (ofTasks tasks).taken t = tasks.count t := by
  rw [ofTasks, addAll_taken, Nat.zero_add]

theorem ofTasks_next {a b : List ι} {t : ι} (hnodup : (a ++ t :: b).Nodup) :
    (ofTasks (a ++ t :: b)).next t = b.head? :=
  addAll_next hnodup (fun _ _ => rfl) fun _ h => nomatch h

end CoreTaskLinkedList

end

/-! ### The threads -/

/-- Who runs a callback of the awaiter state: the thread that completes a task, the coroutine
itself, the expiration. -/
inductive Caller (ι : Type) where
  | task (t : ι)
  | main
  | expiration
  deriving DecidableEq, Repr

/-- In a callback: the decrement of the counter, the compare-exchange of `resolve(result)`, the
call of `resolve` that won it, and behind. -/
inductive Call where
  | count
  | exchange (result : Bool)
  | won
  | returned
  deriving DecidableEq, Repr

/-- The thread that completes a task: before its section, before the section of
`invokeReadyCallback`, and behind. -/
inductive Finish where
  | pending
  | ready
  | done
  deriving DecidableEq, Repr

/-- The subscription of the expiration: none, until it fires, and behind. -/
inductive Expiring where
  | idle
  | subscribed
  | fired
  deriving DecidableEq, Repr

/-- `CoreTaskLinkedList::reset`: not called, at the head, at the loop with `next`, in the loop
behind `setNext` and behind `setReadyCallback`; then `taskSource.resolve()`, and behind. -/
inductive Reset (ι : Type) where
  | idle
  | start
  | visit (next : Option ι)
  | unset (current : ι) (next : Option ι)
  | release (current : ι) (next : Option ι)
  | source
  | returned
  deriving DecidableEq, Repr

/-- The coroutine: the tests whether the tasks are ready, the early returns, the test of the
expiration, the awaiter state, the callback of an expiration that has expired already, the
registration loop with the callback of a task that is ready already, `co_await`. -/
inductive Main (ι : Type) where
  | start
  | test (current : Option ι)
  | early (result : Bool)
  | checking
  | create
  | subscribing
  | begin
  | register (current : Option ι)
  | calling (current : ι)
  | advance (current : ι)
  | awaiting
  | returned
  deriving DecidableEq, Repr

/-- Where a task stands when the call begins. -/
inductive Stage where
  | pending
  | finishing
  | finished
  deriving DecidableEq, Repr

structure Setup (ι : Type) where
  mode : Mode
  tasks : List ι
  nodup : tasks.Nodup
  stage : ι → Stage
  eternal : Bool
  expired : Bool

structure State (ι : Type) where
  task : ι → Listed
  list : CoreTaskLinkedList ι
  released : ι → Nat
  finish : ι → Finish
  expiring : Expiring
  expired : Bool
  main : Main ι
  call : Caller ι → Call
  counter : Nat
  completionState : Option Bool
  reset : Reset ι
  resolved : Nat
  results : List Bool

inductive Action (ι : Type) where
  | main
  | complete (t : ι)
  | expire
  | expiration
  | call (k : Caller ι)
  | reset
  deriving DecidableEq, Repr

section

variable {ι : Type} [DecidableEq ι]

def Stage.task : Stage → Listed
  | pending => {}
  | _       => { flags := { ready := true } }

def Stage.finish : Stage → Finish
  | pending   => .pending
  | finishing => .ready
  | finished  => .done

def initial (u : Setup ι) : State ι where
  task t := (u.stage t).task
  list := .ofTasks u.tasks
  released _ := 0
  finish t := (u.stage t).finish
  expiring := .idle
  expired := !u.eternal && u.expired
  main := .start
  call _ := .returned
  counter := 0
  completionState := none
  reset := .idle
  resolved := 0
  results := []

/-- The `initialCounter` of the awaiter state for a list of `size` tasks. -/
def Mode.counter (size : Nat) : Mode → Nat
  | all => size
  | any => 0

/-- The callback of a task begins. -/
def Mode.call : Mode → Call
  | all => .count
  | any => .exchange true

def State.setCall (s : State ι) (k : Caller ι) (c : Call) : State ι :=
  { s with call := Function.update s.call k c }

/-- One operation of a callback.  The thread that wins the compare-exchange is in `reset` and
`taskSource.resolve()` until both are over. -/
def stepCall (s : State ι) (k : Caller ι) : Option (State ι) :=
  match s.call k with
  | .count =>
      some (State.setCall { s with counter := s.counter - 1 } k
        (if s.counter = 1 then .exchange true else .returned))
  | .exchange result =>
      match s.completionState with
      | none   =>
          some (State.setCall { s with completionState := some result, reset := .start } k .won)
      | some _ => some (s.setCall k .returned)
  | .won => if s.reset = .returned then some (s.setCall k .returned) else none
  | .returned => none

def stepReset (s : State ι) : Option (State ι) :=
  match s.reset with
  | .idle | .returned => none
  | .start =>
      some { s with list := { s.list with head := none }, reset := .visit s.list.head }
  | .visit none => some { s with reset := .source }
  | .visit (some t) =>
      some { s with
        list := { s.list with next := Function.update s.list.next t none }
        reset := .unset t (s.list.next t) }
  | .unset t next =>
      some { s with
        task := Function.update s.task t ((s.task t).setReadyCallback none).2
        reset := .release t next }
  | .release t next =>
      some { s with
        released := Function.update s.released t (s.released t + 1)
        reset := .visit next }
  | .source =>
      if s.completionState.isSome then
        some { s with resolved := s.resolved + 1, reset := .returned }
      else none

/-- `tasks.reset(); co_return result;` -/
def State.returnEarly (s : State ι) (result : Bool) : State ι :=
  { s with main := .early result, reset := .start }

def stepMain (u : Setup ι) (s : State ι) : Option (State ι) :=
  match s.main with
  | .start =>
      if u.mode = .any ∧ s.list.head = none then some (s.returnEarly true)
      else some { s with main := .test s.list.head }
  | .test none =>
      if u.mode = .all then some (s.returnEarly true) else some { s with main := .checking }
  | .test (some t) =>
      match u.mode, (s.task t).flags.ready with
      | .all, true | .any, false => some { s with main := .test (s.list.next t) }
      | .all, false              => some { s with main := .checking }
      | .any, true               => some (s.returnEarly true)
  | .early result =>
      if s.reset = .source then
        some { s with main := .returned, results := s.results ++ [result] }
      else none
  | .checking =>
      if s.expired then some (s.returnEarly false) else some { s with main := .create }
  | .create =>
      let s := { s with counter := u.mode.counter s.list.size }
      if u.eternal then some { s with main := .begin }
      else if s.expired then
        some (State.setCall { s with main := .subscribing } .main (.exchange false))
      else some { s with main := .begin, expiring := .subscribed }
  | .subscribing => if s.call .main = .returned then some { s with main := .begin } else none
  | .begin => some { s with main := .register s.list.head }
  | .register none => some { s with main := .awaiting }
  | .register (some t) =>
      if ((s.task t).setReadyCallback (some ())).1.isSome then
        some (State.setCall { s with
          task := Function.update s.task t ((s.task t).setReadyCallback (some ())).2
          main := .calling t } .main u.mode.call)
      else
        some { s with
          task := Function.update s.task t ((s.task t).setReadyCallback (some ())).2
          main := .advance t }
  | .calling t => if s.call .main = .returned then some { s with main := .advance t } else none
  | .advance t => some { s with main := .register (s.list.next t) }
  | .awaiting =>
      if 0 < s.resolved then
        some { s with
          main := .returned, results := s.results ++ [decide (s.completionState = some true)] }
      else none
  | .returned => none

def stepComplete (u : Setup ι) (s : State ι) (t : ι) : Option (State ι) :=
  match s.finish t with
  | .pending =>
      ((s.task t).tryResolve none).map fun task =>
        { s with
          task := Function.update s.task t task, finish := Function.update s.finish t .ready }
  | .ready =>
      some (State.setCall { s with
        task := Function.update s.task t (s.task t).takeReadyCallback.2
        finish := Function.update s.finish t .done } (.task t)
        (if (s.task t).takeReadyCallback.1.isSome then u.mode.call else .returned))
  | .done => none

def step (u : Setup ι) (s : State ι) : Action ι → Option (State ι)
  | .main       => stepMain u s
  | .complete t => stepComplete u s t
  | .expire     => if u.eternal then none else some { s with expired := true }
  | .expiration =>
      if s.expiring = .subscribed ∧ s.expired then
        some (State.setCall { s with expiring := .fired } .expiration (.exchange false))
      else none
  | .call k     => stepCall s k
  | .reset      => stepReset s

/-! ### What a step can do -/

/-- The effect of each operation, with what is known before it. -/
inductive Move (u : Setup ι) (s : State ι) : State ι → Prop where
  | startEmpty (hm : s.main = .start) (hu : u.mode = .any) (hh : s.list.head = none) :
      Move u s (s.returnEarly true)
  | started (hm : s.main = .start) : Move u s { s with main := .test s.list.head }
  | allReady (hm : s.main = .test none) (hu : u.mode = .all) : Move u s (s.returnEarly true)
  | noneReady (hm : s.main = .test none) : Move u s { s with main := .checking }
  | tested {t : ι} (hm : s.main = .test (some t))
      (hr : u.mode = .all → (s.task t).flags.ready = true) :
      Move u s { s with main := .test (s.list.next t) }
  | notReady {t : ι} (hm : s.main = .test (some t)) : Move u s { s with main := .checking }
  | someReady {t : ι} (hm : s.main = .test (some t)) (hu : u.mode = .any)
      (hr : (s.task t).flags.ready = true) : Move u s (s.returnEarly true)
  | left {result : Bool} (hm : s.main = .early result) (hr : s.reset = .source) :
      Move u s { s with main := .returned, results := s.results ++ [result] }
  | expiredEarly (hm : s.main = .checking) (he : s.expired = true) :
      Move u s (s.returnEarly false)
  | checked (hm : s.main = .checking) : Move u s { s with main := .create }
  | createdEternal (hm : s.main = .create) :
      Move u s { s with main := .begin, counter := u.mode.counter s.list.size }
  | createdExpired (hm : s.main = .create) (he : s.expired = true) :
      Move u s (State.setCall { s with
        main := .subscribing, counter := u.mode.counter s.list.size } .main (.exchange false))
  | created (hm : s.main = .create) :
      Move u s { s with
        main := .begin, counter := u.mode.counter s.list.size, expiring := .subscribed }
  | subscribed (hm : s.main = .subscribing) (hc : s.call .main = .returned) :
      Move u s { s with main := .begin }
  | begun (hm : s.main = .begin) : Move u s { s with main := .register s.list.head }
  | registered (hm : s.main = .register none) : Move u s { s with main := .awaiting }
  | stored {t : ι} (hm : s.main = .register (some t)) (hr : (s.task t).flags.ready = false) :
      Move u s { s with
        task := Function.update s.task t { s.task t with readyCallback := some () }
        main := .advance t }
  | called {t : ι} (hm : s.main = .register (some t)) (hr : (s.task t).flags.ready = true) :
      Move u s (State.setCall { s with main := .calling t } .main u.mode.call)
  | resumed {t : ι} (hm : s.main = .calling t) (hc : s.call .main = .returned) :
      Move u s { s with main := .advance t }
  | advanced {t : ι} (hm : s.main = .advance t) :
      Move u s { s with main := .register (s.list.next t) }
  | awaited (hm : s.main = .awaiting) (hr : 0 < s.resolved) :
      Move u s { s with
        main := .returned, results := s.results ++ [decide (s.completionState = some true)] }
  | completed {t : ι} (hf : s.finish t = .pending) (hr : (s.task t).flags.ready = false) :
      Move u s { s with
        task := Function.update s.task t { s.task t with
          flags := { (s.task t).flags with ready := true } }
        finish := Function.update s.finish t .ready }
  | taken {t : ι} (hf : s.finish t = .ready) (hc : (s.task t).readyCallback = some ()) :
      Move u s (State.setCall { s with
        task := Function.update s.task t { s.task t with readyCallback := none }
        finish := Function.update s.finish t .done } (.task t) u.mode.call)
  | untaken {t : ι} (hf : s.finish t = .ready) (hc : (s.task t).readyCallback = none) :
      Move u s
        (State.setCall { s with finish := Function.update s.finish t .done } (.task t) .returned)
  | expired : Move u s { s with expired := true }
  | fired (he : s.expiring = .subscribed) (hx : s.expired = true) :
      Move u s (State.setCall { s with expiring := .fired } .expiration (.exchange false))
  | last {k : Caller ι} (hc : s.call k = .count) (h1 : s.counter = 1) :
      Move u s (State.setCall { s with counter := 0 } k (.exchange true))
  | counted {k : Caller ι} (hc : s.call k = .count) (h1 : s.counter ≠ 1) :
      Move u s (State.setCall { s with counter := s.counter - 1 } k .returned)
  | won {k : Caller ι} {result : Bool} (hc : s.call k = .exchange result)
      (hn : s.completionState = none) :
      Move u s (State.setCall { s with completionState := some result, reset := .start } k .won)
  | lost {k : Caller ι} {result : Bool} (hc : s.call k = .exchange result)
      (hn : s.completionState ≠ none) : Move u s (s.setCall k .returned)
  | ended {k : Caller ι} (hc : s.call k = .won) (hr : s.reset = .returned) :
      Move u s (s.setCall k .returned)
  | resetHead (hr : s.reset = .start) :
      Move u s { s with list := { s.list with head := none }, reset := .visit s.list.head }
  | resetEnd (hr : s.reset = .visit none) : Move u s { s with reset := .source }
  | unlinked {t : ι} (hr : s.reset = .visit (some t)) :
      Move u s { s with
        list := { s.list with next := Function.update s.list.next t none }
        reset := .unset t (s.list.next t) }
  | cleared {t : ι} {next : Option ι} (hr : s.reset = .unset t next) :
      Move u s { s with
        task := Function.update s.task t ((s.task t).setReadyCallback none).2
        reset := .release t next }
  | released {t : ι} {next : Option ι} (hr : s.reset = .release t next) :
      Move u s { s with
        released := Function.update s.released t (s.released t + 1)
        reset := .visit next }
  | source (hr : s.reset = .source) (hs : s.completionState ≠ none) :
      Move u s { s with resolved := s.resolved + 1, reset := .returned }

variable {u : Setup ι} {s s' : State ι}

theorem move_of_stepCall {k : Caller ι} (h : stepCall s k = some s') : Move u s s' := by
  rw [stepCall] at h
  rcases hc : s.call k with _ | result | _ | _ <;> rw [hc] at h <;> dsimp only at h
  case count =>
    by_cases h1 : s.counter = 1
    · rw [if_pos h1, h1] at h
      obtain rfl := Option.some.inj h
      exact .last hc h1
    · rw [if_neg h1] at h
      obtain rfl := Option.some.inj h
      exact .counted hc h1
  case exchange =>
    rcases hn : s.completionState with _ | b <;> rw [hn] at h <;> obtain rfl := Option.some.inj h
    · exact .won hc hn
    · exact .lost hc (by rw [hn]; exact (nomatch ·))
  case won =>
    split at h
    case isTrue hr =>
      obtain rfl := Option.some.inj h
      exact .ended hc hr
    case isFalse => cases h
  case returned => cases h

theorem move_of_stepReset (h : stepReset s = some s') : Move u s s' := by
  rw [stepReset] at h
  rcases hr : s.reset with _ | _ | next | ⟨t, next⟩ | ⟨t, next⟩ | _ | _ <;> rw [hr] at h <;>
    dsimp only at h
  case idle => cases h
  case start =>
    obtain rfl := Option.some.inj h
    exact .resetHead hr
  case visit =>
    cases next with
    | none =>
        obtain rfl := Option.some.inj h
        exact .resetEnd hr
    | some t =>
        obtain rfl := Option.some.inj h
        exact .unlinked hr
  case unset =>
    obtain rfl := Option.some.inj h
    exact .cleared hr
  case release =>
    obtain rfl := Option.some.inj h
    exact .released hr
  case source =>
    split at h
    case isTrue hs =>
      obtain rfl := Option.some.inj h
      exact .source hr (Option.isSome_iff_ne_none.1 hs)
    case isFalse => cases h
  case returned => cases h

theorem move_of_stepComplete {t : ι} (h : stepComplete u s t = some s') : Move u s s' := by
  rw [stepComplete] at h
  rcases hf : s.finish t with _ | _ | _ <;> rw [hf] at h <;> dsimp only at h
  case pending =>
    obtain ⟨task, htask, rfl⟩ := Option.map_eq_some_iff.1 h
    rw [CoreTask.tryResolve] at htask
    split at htask
    case isTrue => cases htask
    case isFalse hr =>
      obtain rfl := Option.some.inj htask
      exact .completed hf (by simpa using hr)
  case ready =>
    rw [CoreTask.takeReadyCallback] at h
    rcases hc : (s.task t).readyCallback with _ | _ <;> rw [hc] at h <;>
      obtain rfl := Option.some.inj h
    · have htask : Function.update s.task t { s.task t with readyCallback := none } = s.task :=
        Function.update_eq_self_iff.2 (by rw [← hc])
      dsimp only
      rw [htask]
      exact .untaken hf hc
    · exact .taken hf hc
  case done => cases h

/-- The tests before the awaiter state is made. -/
theorem move_of_test {current : Option ι} (hm : s.main = .test current)
    (h : stepMain u s = some s') : Move u s s' := by
  rw [stepMain, hm] at h
  cases current with
  | none =>
      dsimp only at h
      split at h <;> obtain rfl := Option.some.inj h
      case isTrue hu => exact .allReady hm hu
      case isFalse => exact .noneReady hm
  | some t =>
      dsimp only at h
      split at h <;> obtain rfl := Option.some.inj h
      case h_1 hr => exact .tested hm fun _ => hr
      case h_2 hu _ => exact .tested hm fun ha => nomatch hu.symm.trans ha
      case h_3 => exact .notReady hm
      case h_4 hu hr => exact .someReady hm hu hr

theorem move_of_create (hm : s.main = .create) (h : stepMain u s = some s') : Move u s s' := by
  rw [stepMain, hm] at h
  dsimp only at h
  split at h
  case isTrue =>
    obtain rfl := Option.some.inj h
    exact .createdEternal hm
  case isFalse =>
    split at h <;> obtain rfl := Option.some.inj h
    case isTrue he => exact .createdExpired hm he
    case isFalse => exact .created hm

/-- The registration loop. -/
theorem move_of_register {current : Option ι} (hm : s.main = .register current)
    (h : stepMain u s = some s') : Move u s s' := by
  rw [stepMain, hm] at h
  cases current with
  | none =>
      obtain rfl := Option.some.inj h
      exact .registered hm
  | some t =>
      dsimp only at h
      cases hr : (s.task t).flags.ready with
      | false =>
          rw [CoreTask.setReadyCallback_of_not_ready hr] at h
          obtain rfl := Option.some.inj h
          exact .stored hm hr
      | true =>
          have htask : Function.update s.task t (s.task t) = s.task := Function.update_eq_self t _
          rw [CoreTask.setReadyCallback_of_ready hr, htask] at h
          obtain rfl := Option.some.inj h
          exact .called hm hr

theorem move_of_stepMain (h : stepMain u s = some s') : Move u s s' := by
  rcases hm : s.main with _ | current | result | _ | _ | _ | _ | current | t | t | _ | _
  case test => exact move_of_test hm h
  case create => exact move_of_create hm h
  case register => exact move_of_register hm h
  all_goals
    rw [stepMain, hm] at h
    dsimp only at h
  case start =>
    split at h <;> obtain rfl := Option.some.inj h
    case isTrue hu => exact .startEmpty hm hu.1 hu.2
    case isFalse => exact .started hm
  case early =>
    split at h
    case isTrue hr =>
      obtain rfl := Option.some.inj h
      exact .left hm hr
    case isFalse => cases h
  case checking =>
    split at h <;> obtain rfl := Option.some.inj h
    case isTrue he => exact .expiredEarly hm he
    case isFalse => exact .checked hm
  case subscribing =>
    split at h
    case isTrue hc =>
      obtain rfl := Option.some.inj h
      exact .subscribed hm hc
    case isFalse => cases h
  case begin =>
    obtain rfl := Option.some.inj h
    exact .begun hm
  case calling =>
    split at h
    case isTrue hc =>
      obtain rfl := Option.some.inj h
      exact .resumed hm hc
    case isFalse => cases h
  case advance =>
    obtain rfl := Option.some.inj h
    exact .advanced hm
  case awaiting =>
    split at h
    case isTrue hr =>
      obtain rfl := Option.some.inj h
      exact .awaited hm hr
    case isFalse => cases h
  case returned => cases h

theorem move_of_step {a : Action ι} (h : step u s a = some s') : Move u s s' := by
  cases a with
  | main => exact move_of_stepMain h
  | complete t => exact move_of_stepComplete h
  | expire =>
      rw [step] at h
      split at h
      case isTrue => cases h
      case isFalse =>
        obtain rfl := Option.some.inj h
        exact .expired
  | expiration =>
      rw [step] at h
      split at h
      case isTrue hx =>
        obtain rfl := Option.some.inj h
        exact .fired hx.1 hx.2
      case isFalse => cases h
  | call k => exact move_of_stepCall h
  | reset => exact move_of_stepReset h

end

end MyEngine.Async.WhenAll
