import MyEngine.Async.CoreTask
import MyEngine.Support.Runs
import Mathlib.Data.Fin.Tuple.Basic
import Mathlib.Logic.Function.Basic

/-!
# Async — TaskCoroutine

The coroutines of `task.h` whose return type is `Task<T>`: the promise, the awaiters of a task, of
`doTry`, of a `Result` and of a delay, and the `TaskSource` each coroutine completes.

* `Body`: what a coroutine does, over the tasks it holds.  A task is moved into the coroutine that
  awaits it or into a callee, so that the coroutines await each other as a tree.
* `Body.eval`: what a coroutine means when every call is carried out on the spot: the statements
  it executes and what it ends with.
* `step`: the coroutines and the leaves of a tree, one operation of one of them at a time, in any
  order.
-/

namespace MyEngine.Async.Coroutine

/-- The body of a coroutine that holds `m` tasks, with statements `S`, values `V`, errors `E` and
leaves `L`.  A null error is `none`; the value of a `Task<void>` is one of the values. -/
inductive Body (S V E L : Type) : Nat → Type where
  /-- A statement that awaits nothing. -/
  | stmt {m : Nat} (s : S) (next : Body S V E L m) : Body S V E L m
  | returnValue {m : Nat} (value : V) : Body S V E L m
  | returnError {m : Nat} (error : Option E) : Body S V E L m
  | returnResult {m : Nat} (result : Except E V) : Body S V E L m
  | yieldValue {m : Nat} (error : Option E) : Body S V E L m
  /-- A coroutine is called: `σ` says which tasks it is given and which stay, and its own task
  becomes the first. -/
  | call {k n m : Nat} (σ : Fin k ⊕ Fin n ≃ Fin m) (callee : Body S V E L k)
      (next : Body S V E L (n + 1)) : Body S V E L m
  /-- The task of a `TaskSource` that something else completes becomes the first. -/
  | source {m : Nat} (leaf : L) (next : Body S V E L (m + 1)) : Body S V E L m
  | awaitTask {m : Nat} (i : Fin (m + 1)) (next : V → Body S V E L m) : Body S V E L (m + 1)
  /-- `co_await task.doTry()`, which leaves the task where it is. -/
  | awaitTry {m : Nat} (i : Fin m) (next : Except E V → Body S V E L m) : Body S V E L m
  | awaitResult {m : Nat} (result : Except E V) (next : V → Body S V E L m) : Body S V E L m
  /-- `leaf` is the timer. -/
  | awaitDelay {m : Nat} (delay : Nat) (leaf : L) (next : Body S V E L m) : Body S V E L m

/-- What the leaves end with: a source with a value or an error, a timer with an error or none. -/
structure Outcomes (V E L : Type) where
  source : L → Except E V
  timer : L → Option E

variable {X S V E L : Type}

/-- The error of `return_value` and `yield_value`. -/
def specified (makeError : String → E) (error : Option E) : E :=
  error.getD (makeError "Unspecified error")

/-- What is executed and what it ends with, after what was awaited. -/
def after (awaited : Except E V) (next : V → List S × Except E V) : List S × Except E V :=
  match awaited with
  | .ok value    => next value
  | .error error => ([], .error error)

/-- The statements a body executes and what it ends with, given what its tasks end with. -/
def Body.eval (makeError : String → E) (outcomes : Outcomes V E L) {m : Nat} :
    Body S V E L m → (Fin m → Except E V) → List S × Except E V
  | stmt s next, env                => ((next.eval makeError outcomes env).map (s :: ·) id)
  | returnValue value, _            => ([], .ok value)
  | returnError error, _            => ([], .error (specified makeError error))
  | returnResult result, _          => ([], result)
  | yieldValue error, _             => ([], .error (specified makeError error))
  | call σ callee next, env         =>
      let result := (callee.eval makeError outcomes fun i => env (σ (.inl i))).2
      next.eval makeError outcomes (Fin.cons result fun i => env (σ (.inr i)))
  | source leaf next, env           =>
      next.eval makeError outcomes (Fin.cons (outcomes.source leaf) env)
  | awaitTask i next, env           =>
      after (env i) fun value => (next value).eval makeError outcomes (i.removeNth env)
  | awaitTry i next, env            => (next (env i)).eval makeError outcomes env
  | awaitResult result next, env    =>
      after result fun value => (next value).eval makeError outcomes env
  | awaitDelay delay leaf next, env =>
      match if delay = 0 then none else outcomes.timer leaf with
      | none       => next.eval makeError outcomes env
      | some error => ([], .error error)

/-! ### Tasks -/

/-- A task with `TaskClientData<T>`, whose continuation resumes a coroutine; `completions` are the
calls of `resolve` and `reject` on its source. -/
structure Task (X V E : Type) where
  core : CoreTask X Nat Empty E := {}
  result : Option V := none
  completions : List (Except E V) := []

namespace Task

def resolve (value : V) (t : Task X V E) : Task X V E :=
  let t := { t with completions := t.completions ++ [Except.ok value] }
  match t.core.tryResolve (some none) with
  | some core => { t with core := core, result := some value }
  | none      => t

def reject (error : E) (t : Task X V E) : Task X V E :=
  let t := { t with completions := t.completions ++ [Except.error error] }
  match t.core.tryResolve (some (some error)) with
  | some core => { t with core := core }
  | none      => t

def complete : Except E V → Task X V E → Task X V E
  | .ok value    => resolve value
  | .error error => reject error

def isReady (t : Task X V E) : Bool := t.core.flags.ready

/-- `asResult`; nothing when there is neither an error nor a value. -/
def asResult (t : Task X V E) : Option (Except E V) :=
  match t.core.error with
  | some error => some (.error error)
  | none       => t.result.map .ok

/-- `setContinuation` as a whole; `current` is `Executor::getCurrent()`. -/
def setContinuation (coroutine : Nat) (current : Option X) (t : Task X V E) : Task X V E :=
  { t with core := { t.core with
      continuation := some (t.core.captured ⟨current, coroutine⟩)
      flags := { t.core.flags with hasContinuation := true } } }

/-- `tryScheduleContinuation` as a whole, by the thread that wins: the continuation with the
executor that calls it, or the thread itself. -/
def schedule (current : Option X) (t : Task X V E) : Option (Dispatch X Nat × Task X V E) :=
  if t.core.Due ∧ t.core.flags.continuationScheduled = false then
    t.core.continuation.map fun continuation =>
      (t.core.dispatch current continuation,
        { t with core := { t.core with
            continuation := none
            flags := { t.core.flags with continuationScheduled := true } } })
  else none

/-- `~TaskSourceBase`. -/
def abandon (makeError : String → E) (t : Task X V E) : Task X V E :=
  if t.isReady then t else t.reject (makeError "TaskSource is destroyed with no result")

end Task

/-! ### Coroutines -/

/-- The two awaiters that a continuation resumes: `TaskAwaiter` and `TaskTryAwaiter`. -/
inductive Awaiter (S V E L : Type) where
  | task {m : Nat} (task : Nat) (next : V → Body S V E L m) (tasks : Fin m → Nat)
  | tryTask {m : Nat} (task : Nat) (next : Except E V → Body S V E L m) (tasks : Fin m → Nat)

def Awaiter.awaited : Awaiter S V E L → Nat
  | task t _ _    => t
  | tryTask t _ _ => t

/-- Where a coroutine stands: before a statement, before the test in `TaskAwaiter::await_suspend`,
before `setContinuation`, behind it; with a timer running; with nothing to do but to be destroyed,
and destroyed.  `tasks` are the tasks it holds. -/
inductive Place (S V E L : Type) where
  | running {m : Nat} (body : Body S V E L m) (tasks : Fin m → Nat)
  | suspending {m : Nat} (task : Nat) (next : V → Body S V E L m) (tasks : Fin m → Nat)
  | registering (awaiter : Awaiter S V E L)
  | suspended (awaiter : Awaiter S V E L)
  | delayed {m : Nat} (leaf : L) (next : Body S V E L m) (tasks : Fin m → Nat)
  | leaving
  | destroyed

/-- A coroutine and the tasks it is given. -/
structure Call (S V E L : Type) where
  {arity : Nat}
  callee : Body S V E L arity
  arguments : Fin arity → Nat

/-- The frame of a coroutine with its promise: what was called, and what came of it.  The number
of a coroutine is that of its task. -/
structure Frame (S V E L : Type) where
  called : Call S V E L
  place : Place S V E L := .running called.callee called.arguments
  errorOnDestroy : Option E := none
  log : List S := []
  destructions : Nat := 0

/-- What completes a task: something outside, or a coroutine. -/
inductive Code (S V E L : Type) where
  | leaf (leaf : L)
  | coroutine (frame : Frame S V E L)

/-- The tasks and what completes them, by their numbers. -/
structure State (X S V E L : Type) where
  created : Nat
  task : Nat → Task X V E
  code : Nat → Option (Code S V E L)

/-- What a coroutine does in one operation: it goes on, completes its task and is to be destroyed,
is to be destroyed with an error, calls a coroutine, takes the task of a source. -/
inductive Move (S V E L : Type) where
  | goto (log : List S) (place : Place S V E L)
  | finish (result : Except E V)
  | fail (error : E)
  | call {k n : Nat} (callee : Body S V E L k) (arguments : Fin k → Nat)
      (next : Body S V E L (n + 1)) (tasks : Fin n → Nat)
  | source {n : Nat} (leaf : L) (next : Body S V E L (n + 1)) (tasks : Fin n → Nat)

/-- The next operation of a body.  `return_value` and `return_void` complete the task, and the
coroutine does not suspend at its end; `yield_value` completes it, and `CoroutineBreaker` destroys
the coroutine. -/
def Body.next (makeError : String → E) (task : Nat → Task X V E) {m : Nat} :
    Body S V E L m → (Fin m → Nat) → Option (Move S V E L)
  | stmt s next, tasks               => some (.goto [s] (.running next tasks))
  | returnValue value, _             => some (.finish (.ok value))
  | returnError error, _             => some (.finish (.error (specified makeError error)))
  | returnResult result, _           => some (.finish result)
  | yieldValue error, _              => some (.finish (.error (specified makeError error)))
  | call σ callee next, tasks        =>
      some (.call callee (fun i => tasks (σ (.inl i))) next fun i => tasks (σ (.inr i)))
  | source leaf next, tasks          => some (.source leaf next tasks)
  | awaitTask i next, tasks          =>
      let t := task (tasks i)
      if t.isReady ∧ t.core.error.isNone then
        t.result.map fun value => .goto [] (.running (next value) (i.removeNth tasks))
      else some (.goto [] (.suspending (tasks i) next (i.removeNth tasks)))
  | awaitTry i next, tasks           =>
      let t := task (tasks i)
      if t.isReady then t.asResult.map fun result => .goto [] (.running (next result) tasks)
      else some (.goto [] (.registering (.tryTask (tasks i) next tasks)))
  | awaitResult result next, tasks   =>
      match result with
      | .ok value    => some (.goto [] (.running (next value) tasks))
      | .error error => some (.finish (.error error))
  | awaitDelay delay leaf next, tasks =>
      if delay = 0 then some (.goto [] (.running next tasks))
      else some (.goto [] (.delayed leaf next tasks))

/-- The test in `TaskAwaiter::await_suspend`. -/
def suspend (task : Nat → Task X V E) {m : Nat} (t : Nat) (next : V → Body S V E L m)
    (tasks : Fin m → Nat) : Move S V E L :=
  match if (task t).isReady then (task t).core.error else none with
  | some error => .finish (.error error)
  | none       => .goto [] (.registering (.task t next tasks))

/-- The continuation, with `await_resume`. -/
def Awaiter.resume (task : Nat → Task X V E) : Awaiter S V E L → Option (Move S V E L)
  | .task t next tasks    =>
      match (task t).core.error with
      | some error => some (.fail error)
      | none       => (task t).result.map fun value => .goto [] (.running (next value) tasks)
  | .tryTask t next tasks =>
      (task t).asResult.map fun result => .goto [] (.running (next result) tasks)

/-- The callback of `DelayAwaiter`. -/
def expire (error : Option E) {m : Nat} (next : Body S V E L m) (tasks : Fin m → Nat) :
    Move S V E L :=
  match error with
  | none       => .goto [] (.running next tasks)
  | some error => .fail error

namespace State

def setTask (n : Nat) (t : Task X V E) (s : State X S V E L) : State X S V E L :=
  { s with task := Function.update s.task n t }

def setFrame (n : Nat) (f : Frame S V E L) (s : State X S V E L) : State X S V E L :=
  { s with code := Function.update s.code n (some (.coroutine f)) }

/-- One more task. -/
def create (c : Code S V E L) (s : State X S V E L) : State X S V E L where
  created := s.created + 1
  task := Function.update s.task s.created {}
  code := Function.update s.code s.created (some c)

/-- The coroutine `n`, whose frame is `f`, makes a move. -/
def move (n : Nat) (f : Frame S V E L) (s : State X S V E L) : Move S V E L → State X S V E L
  | .goto log place => s.setFrame n { f with log := f.log ++ log, place := place }
  | .finish result  =>
      (s.setTask n ((s.task n).complete result)).setFrame n { f with place := .leaving }
  | .fail error     =>
      s.setFrame n { f with errorOnDestroy := some error, place := .leaving }
  | .call callee arguments next tasks =>
      (s.create (.coroutine { called := ⟨callee, arguments⟩ })).setFrame n
        { f with place := .running next (Fin.cons s.created tasks) }
  | .source leaf next tasks =>
      (s.create (.leaf leaf)).setFrame n
        { f with place := .running next (Fin.cons s.created tasks) }

/-- `setContinuation` in `await_suspend`. -/
def register (n : Nat) (current : Option X) (f : Frame S V E L) (a : Awaiter S V E L)
    (s : State X S V E L) : State X S V E L :=
  (s.setTask a.awaited ((s.task a.awaited).setContinuation n current)).setFrame n
    { f with place := .suspended a }

/-- The frame is destroyed: `~TaskPromise`, then its `TaskSource`. -/
def destroy (makeError : String → E) (n : Nat) (f : Frame S V E L) (s : State X S V E L) :
    State X S V E L :=
  let t := match f.errorOnDestroy with
    | some error => (s.task n).reject error
    | none       => s.task n
  (s.setTask n (t.abandon makeError)).setFrame n
    { f with place := .destroyed, errorOnDestroy := none, destructions := f.destructions + 1 }

/-- The next operation of the coroutine `n`. -/
def stepFrame (makeError : String → E) (n : Nat) (current : Option X) (f : Frame S V E L)
    (s : State X S V E L) : Option (State X S V E L) :=
  match f.place with
  | .running body tasks      => (body.next makeError s.task tasks).map (s.move n f)
  | .suspending t next tasks => some (s.move n f (suspend s.task t next tasks))
  | .registering a           => some (s.register n current f a)
  | .leaving                 => some (s.destroy makeError n f)
  | .suspended _ | .delayed _ _ _ | .destroyed => none

end State

/-- The source `n` is completed; the timer of the coroutine `n` calls; the coroutine `n` goes on;
the continuation of the task `n` is called. -/
inductive Action (X : Type) where
  | complete (n : Nat)
  | expire (n : Nat)
  | run (n : Nat) (current : Option X)
  | invoke (n : Nat) (current : Option X)

def step (makeError : String → E) (outcomes : Outcomes V E L) (s : State X S V E L) :
    Action X → Option (State X S V E L)
  | .complete n =>
      match s.code n with
      | some (.leaf l) =>
          if (s.task n).isReady then none
          else some (s.setTask n ((s.task n).complete (outcomes.source l)))
      | _ => none
  | .expire n =>
      match s.code n with
      | some (.coroutine f) =>
          match f.place with
          | .delayed leaf next tasks =>
              some (s.move n f (expire (outcomes.timer leaf) next tasks))
          | _ => none
      | _ => none
  | .run n current =>
      match s.code n with
      | some (.coroutine f) => s.stepFrame makeError n current f
      | _ => none
  | .invoke n current =>
      (s.task n).schedule current |>.bind fun (dispatch, task) =>
        match s.code dispatch.invocation with
        | some (.coroutine f) =>
            match f.place with
            | .suspended a =>
                (a.resume s.task).map ((s.setTask n task).move dispatch.invocation f)
            | _ => none
        | _ => none

/-- The tree's root has been called. -/
def initial (root : Body S V E L 0) : State X S V E L where
  created := 1
  task _ := {}
  code n := if n = 0 then some (.coroutine { called := ⟨root, Fin.elim0⟩ })
    else none

end MyEngine.Async.Coroutine
