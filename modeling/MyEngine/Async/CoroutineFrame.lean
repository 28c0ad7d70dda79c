import MyEngine.Async.TaskCoroutine

/-!
# Async — CoroutineFrame

One coroutine of `task.h` with the local variables of its frame, down to the end of the frame: the
variables are destroyed one by one, then `~TaskPromise` and its `TaskSource`, and whoever awaits the
task may run between any two of these.

* `Op`: what the coroutine does at a point of its code; the code is any function to operations.
* `step`: an operation of the coroutine, or what the rest of the program does to it.
* `Rejects`: the operations that reject the task at once.
* `ordered_iff`: the runs in which an error leaves the coroutine after its local variables.
-/

namespace MyEngine.Async.CoroutineFrame

open Runs Coroutine

/-- An operation at a point of the code, with local variables `X`, values `V`, errors `E` and tasks
`T`.  A null error is `none`; the value of a `Task<void>` is one of the values. -/
inductive Op (P X V E T : Type) where
  | declare (x : X) (next : P)
  /-- The innermost variable goes out of scope. -/
  | leaveScope (next : P)
  | returnValue (value : V)
  | returnError (error : Option E)
  | returnResult (result : Except E V)
  | yieldValue (error : Option E)
  | awaitTask (task : T) (next : V → P)
  | awaitTry (task : T) (next : Except E V → P)
  | awaitResult (result : Except E V) (next : V → P)
  | awaitDelay (delay : Nat) (next : P)
  /-- An executor or an `Expiration`: the coroutine is resumed, whatever happens. -/
  | awaitExecutor (next : P)

/-- Where the coroutine stands: before an operation, before the test in
`TaskAwaiter::await_suspend`, behind it, behind that of `TaskTryAwaiter`; with a timer running;
waiting for an executor; with nothing to do but to be destroyed, and destroyed. -/
inductive Place (P V E T : Type) where
  | running (point : P)
  | testing (task : T) (next : V → P)
  | suspended (task : T) (next : V → P)
  | trying (task : T) (next : Except E V → P)
  | delayed (next : P)
  | switching (next : P)
  | leaving
  | destroyed

/-- The frame with its promise, the innermost variable first, and the tasks of others. -/
structure State (P X V E T : Type) where
  tasks : T → Option (Except E V)
  place : Place P V E T
  locals : List X := []
  taskSource : Option (Except E V) := none
  errorOnDestroy : Option E := none

variable {P X V E T : Type}

/-- The coroutine is called. -/
def called (tasks : T → Option (Except E V)) (start : P) : State P X V E T where
  tasks := tasks
  place := .running start

namespace State

/-- `resolve` and `reject` of the task source: the first one counts. -/
def complete (result : Except E V) (s : State P X V E T) : State P X V E T :=
  { s with taskSource := s.taskSource.or (some result) }

def goto (place : Place P V E T) (s : State P X V E T) : State P X V E T :=
  { s with place := place }

/-- The task is completed, and the coroutine is to be destroyed. -/
def finish (result : Except E V) (s : State P X V E T) : State P X V E T :=
  (s.complete result).goto .leaving

/-- The coroutine is to be destroyed with an error. -/
def fail (error : E) (s : State P X V E T) : State P X V E T :=
  { s with errorOnDestroy := some error, place := .leaving }

/-- An operation, up to where the coroutine is suspended: `await_ready`, and `await_suspend` of the
awaiters of a `Result` and of `CoroutineBreaker`. -/
def perform (makeError : String → E) (s : State P X V E T) : Op P X V E T → State P X V E T
  | .declare x next          => { s with locals := x :: s.locals, place := .running next }
  | .leaveScope next         => { s with locals := s.locals.tail, place := .running next }
  | .returnValue value       => s.finish (.ok value)
  | .returnError error       => s.finish (.error (specified makeError error))
  | .returnResult result     => s.finish result
  | .yieldValue error        => s.finish (.error (specified makeError error))
  | .awaitTask task next     =>
      match s.tasks task with
      | some (.ok value) => s.goto (.running (next value))
      | _                => s.goto (.testing task next)
  | .awaitTry task next      =>
      match s.tasks task with
      | some result => s.goto (.running (next result))
      | none        => s.goto (.trying task next)
  | .awaitResult result next =>
      match result with
      | .ok value    => s.goto (.running (next value))
      | .error error => s.finish (.error error)
  | .awaitDelay delay next   =>
      if delay = 0 then s.goto (.running next) else s.goto (.delayed next)
  | .awaitExecutor next      => s.goto (.switching next)

/-- The test in `TaskAwaiter::await_suspend`. -/
def suspend (task : T) (next : V → P) (s : State P X V E T) : State P X V E T :=
  match s.tasks task with
  | some (.error error) => s.finish (.error error)
  | _                   => s.goto (.suspended task next)

/-- A part of `destroy()`: a variable, or, when there is none left, the promise: `~TaskPromise`,
then its `TaskSource`. -/
def destroy (makeError : String → E) (s : State P X V E T) : State P X V E T :=
  match s.locals with
  | _ :: locals => { s with locals := locals }
  | []          =>
      let s := match s.errorOnDestroy with
        | some error => s.complete (.error error)
        | none       => s
      let s := s.complete (.error (makeError "TaskSource is destroyed with no result"))
      { s with errorOnDestroy := none, place := .destroyed }

/-- The next operation of the coroutine itself. -/
def run (makeError : String → E) (code : P → Op P X V E T) (s : State P X V E T) :
    Option (State P X V E T) :=
  match s.place with
  | .running point     => some (s.perform makeError (code point))
  | .testing task next => some (s.suspend task next)
  | .leaving           => some (s.destroy makeError)
  | _                  => none

/-- What the continuation of `TaskAwaiter` does with the awaited task. -/
def continuation (next : V → P) (s : State P X V E T) : Except E V → State P X V E T
  | .ok value    => s.goto (.running (next value))
  | .error error => s.fail error

/-- The continuation of an awaited task that is ready, or of an executor, is called. -/
def resume (s : State P X V E T) : Option (State P X V E T) :=
  match s.place with
  | .suspended task next => (s.tasks task).map (s.continuation next)
  | .trying task next    => (s.tasks task).map fun result => s.goto (.running (next result))
  | .switching next      => some (s.goto (.running next))
  | _                    => none

/-- The callback of `DelayAwaiter`. -/
def expire (error : Option E) (s : State P X V E T) : Option (State P X V E T) :=
  match s.place with
  | .delayed next =>
      match error with
      | none       => some (s.goto (.running next))
      | some error => some (s.fail error)
  | _ => none

end State

/-- A task of others is completed; the coroutine goes on; its continuation is called; its timer
calls, with an error when it is cancelled. -/
inductive Action (V E T : Type) where
  | settle (task : T) (result : Except E V)
  | run
  | resume
  | expire (error : Option E)

def step [DecidableEq T] (makeError : String → E) (code : P → Op P X V E T)
    (s : State P X V E T) : Action V E T → Option (State P X V E T)
  | .settle task result =>
      match s.tasks task with
      | none   => some { s with tasks := fun t => if t = task then some result else s.tasks t }
      | some _ => none
  | .run          => s.run makeError code
  | .resume       => s.resume
  | .expire error => s.expire error

/-! ### What is claimed of the frame -/

/-- The task has no error while there are local variables. -/
def State.Ordered (s : State P X V E T) : Prop :=
  ∀ error, s.taskSource = some (.error error) → s.locals = []

/-- `return_value` and `yield_value` with an error, and `await_suspend` of a `Result` with one. -/
def Op.rejects : Op P X V E T → Bool
  | .returnError _ | .yieldValue _ => true
  | .returnResult (.error _) | .awaitResult (.error _) _ => true
  | _ => false

/-- The coroutine rejects its task before it is destroyed. -/
def State.rejects (code : P → Op P X V E T) (s : State P X V E T) : Bool :=
  match s.place with
  | .running point  => (code point).rejects
  | .testing task _ =>
      match s.tasks task with
      | some (.error _) => true
      | _               => false
  | _ => false

/-- The coroutine rejects its task at once only where it has no local variable. -/
def Bare (code : P → Op P X V E T) (s : State P X V E T) : Action V E T → Prop
  | .run => s.rejects code = true → s.locals = []
  | _    => True

/-- The coroutine has nothing left to do. -/
def Place.ends : Place P V E T → Bool
  | .leaving | .destroyed => true
  | _                     => false

/-- The invariant: a coroutine that has not come to its end has not completed its task. -/
structure Inv (s : State P X V E T) : Prop where
  ordered : s.Ordered
  undone : s.place.ends = false → s.taskSource = none

theorem inv_called (tasks : T → Option (Except E V)) (start : P) :
    Inv (called tasks start : State P X V E T) where
  ordered error h := by cases h
  undone _ := rfl

/-! ### The steps -/

section Steps
variable {makeError : String → E} {code : P → Op P X V E T} {s s' : State P X V E T}

/-- An operation completes the task, with an error if it is one that rejects, or leaves it. -/
theorem perform_cases (makeError : String → E) (s : State P X V E T) (op : Op P X V E T) :
    (∃ result, s.perform makeError op = s.finish result ∧
      (op.rejects = true ↔ ∃ error, result = .error error)) ∨
    (op.rejects = false ∧ (s.perform makeError op).taskSource = s.taskSource ∧
      (s.perform makeError op).place.ends = false) := by
  cases op with
  | declare | leaveScope | awaitExecutor => exact .inr ⟨rfl, rfl, rfl⟩
  | returnValue value => exact .inl ⟨_, rfl, by simp [Op.rejects]⟩
  | returnError error | yieldValue error => exact .inl ⟨_, rfl, by simp [Op.rejects]⟩
  | returnResult result =>
      cases result with
      | ok value => exact .inl ⟨_, rfl, by simp [Op.rejects]⟩
      | error error => exact .inl ⟨_, rfl, by simp [Op.rejects]⟩
  | awaitTask task next =>
      refine .inr ⟨rfl, ?_⟩
      simp only [State.perform]
      split
      · exact ⟨rfl, rfl⟩
      · exact ⟨rfl, rfl⟩
  | awaitTry task next =>
      refine .inr ⟨rfl, ?_⟩
      simp only [State.perform]
      split
      · exact ⟨rfl, rfl⟩
      · exact ⟨rfl, rfl⟩
  | awaitResult result next =>
      cases result with
      | ok value => exact .inr ⟨rfl, rfl, rfl⟩
      | error error => exact .inl ⟨_, rfl, by simp [Op.rejects]⟩
  | awaitDelay delay next =>
      refine .inr ⟨rfl, ?_⟩
      simp only [State.perform]
      split
      · exact ⟨rfl, rfl⟩
      · exact ⟨rfl, rfl⟩

/-- The coroutine itself completes its task, with an error if it rejects, or leaves it, or it is
destroyed. -/
theorem run_cases (hs : s.run makeError code = some s') :
    (s.place.ends = false ∧ ∃ result, s' = s.finish result ∧
      (s.rejects code = true ↔ ∃ error, result = .error error)) ∨
    (s.place.ends = false ∧ s.rejects code = false ∧ s'.taskSource = s.taskSource ∧
      s'.place.ends = false) ∨
    (s.place = .leaving ∧ s.rejects code = false ∧ s' = s.destroy makeError) := by
  cases hplace : s.place with
  | running point =>
      simp only [State.run, hplace, Option.some.injEq] at hs
      simp only [State.rejects, hplace]
      subst hs
      obtain ⟨result, hfinish, herror⟩ | ⟨hrejects, hsource, hends⟩ :=
        perform_cases makeError s (code point)
      · exact .inl ⟨rfl, result, hfinish, herror⟩
      · exact .inr (.inl ⟨rfl, hrejects, hsource, hends⟩)
  | testing task next =>
      simp only [State.run, hplace, Option.some.injEq, State.suspend] at hs
      simp only [State.rejects, hplace]
      split at hs
      · next error htask =>
          subst hs
          exact .inl ⟨rfl, .error error, rfl, by simp⟩
      · subst hs
        exact .inr (.inl ⟨rfl, rfl, rfl, rfl⟩)
  | leaving =>
      simp only [State.run, hplace, Option.some.injEq] at hs
      exact .inr (.inr ⟨rfl, by simp only [State.rejects, hplace], hs.symm⟩)
  | suspended | trying | delayed | switching | destroyed =>
      simp only [State.run, hplace, reduceCtorEq] at hs

/-- Nothing else completes the task or touches a variable. -/
theorem others_cases [DecidableEq T] {a : Action V E T} (ha : a ≠ .run)
    (hs : step makeError code s a = some s') :
    s'.taskSource = s.taskSource ∧ s'.locals = s.locals ∧
      (s'.place.ends = false → s.place.ends = false) := by
  cases a with
  | run => exact absurd rfl ha
  | settle task result =>
      simp only [step] at hs
      split at hs
      · obtain rfl := Option.some.inj hs
        exact ⟨rfl, rfl, id⟩
      · cases hs
  | resume =>
      cases hplace : s.place with
      | suspended task next =>
          simp only [step, State.resume, hplace] at hs
          obtain ⟨result, -, rfl⟩ := Option.map_eq_some_iff.mp hs
          cases result with
          | ok value => exact ⟨rfl, rfl, fun _ => rfl⟩
          | error error => exact ⟨rfl, rfl, fun _ => rfl⟩
      | trying task next =>
          simp only [step, State.resume, hplace] at hs
          obtain ⟨result, -, rfl⟩ := Option.map_eq_some_iff.mp hs
          exact ⟨rfl, rfl, fun _ => rfl⟩
      | switching next =>
          simp only [step, State.resume, hplace, Option.some.injEq] at hs
          subst hs
          exact ⟨rfl, rfl, fun _ => rfl⟩
      | running | testing | delayed | leaving | destroyed =>
          simp only [step, State.resume, hplace, reduceCtorEq] at hs
  | expire error =>
      cases hplace : s.place with
      | delayed next =>
          cases error with
          | none | some =>
              simp only [step, State.expire, hplace, Option.some.injEq] at hs
              subst hs
              exact ⟨rfl, rfl, fun _ => rfl⟩
      | running | testing | suspended | trying | switching | leaving | destroyed =>
          simp only [step, State.expire, hplace, reduceCtorEq] at hs

theorem State.Ordered.destroy (h : s.Ordered) : (s.destroy makeError).Ordered := by
  intro error herror
  cases hlocals : s.locals with
  | nil =>
      simp only [State.destroy, hlocals]
      split <;> exact hlocals
  | cons x locals =>
      -- the task has no error yet: the variable is still there
      simp only [State.destroy, hlocals] at herror
      rw [h error herror] at hlocals
      cases hlocals

theorem ends_destroy (hplace : s.place = .leaving) : (s.destroy makeError).place.ends = true := by
  cases hlocals : s.locals with
  | nil => simp only [State.destroy, hlocals, Place.ends]
  | cons x locals => simp only [State.destroy, hlocals, hplace, Place.ends]

/-- A coroutine that has come to its end keeps the order until it is destroyed; before, only what it
rejects at once can break it. -/
theorem Inv.ordered_iff_bare [DecidableEq T] (h : Inv s) (a : Action V E T) :
    (∀ s' ∈ step makeError code s a, s'.Ordered) ↔ Bare code s a := by
  cases a with
  | run =>
      constructor
      · intro hordered hrejects
        cases hs : s.run makeError code with
        | none =>
            cases hplace : s.place with
            | running | testing => simp only [State.run, hplace, reduceCtorEq] at hs
            | suspended | trying | delayed | switching | leaving | destroyed =>
                simp only [State.rejects, hplace, Bool.false_eq_true] at hrejects
        | some s' =>
            obtain ⟨hends, result, rfl, herror⟩ | ⟨-, hnot, -, -⟩ | ⟨-, hnot, -⟩ := run_cases hs
            · obtain ⟨error, rfl⟩ := herror.mp hrejects
              -- the task has its error now, and the variables are those of before
              refine hordered (s.finish (.error error)) hs error ?_
              simp only [State.finish, State.goto, State.complete, h.undone hends, Option.none_or]
            · rw [hnot] at hrejects
              cases hrejects
            · rw [hnot] at hrejects
              cases hrejects
      · intro hbare s' hs
        obtain ⟨hends, result, rfl, herror⟩ | ⟨hends, -, hsource, -⟩ | ⟨-, -, rfl⟩ := run_cases hs
        -- only an operation that rejects leaves an error
        · intro error hsource
          simp only [State.finish, State.goto, State.complete, h.undone hends, Option.none_or,
            Option.some.injEq] at hsource
          exact hbare (herror.mpr ⟨error, hsource⟩)
        · intro error herror
          rw [hsource, h.undone hends] at herror
          cases herror
        · exact h.ordered.destroy
  | settle | resume | expire =>
      refine iff_of_true (fun s' hs error herror => ?_) trivial
      obtain ⟨hsource, hlocals, -⟩ := others_cases (by simp) hs
      rw [hlocals]
      exact h.ordered error (hsource ▸ herror)

theorem Inv.step [DecidableEq T] {a : Action V E T} (h : Inv s) (hordered : s'.Ordered)
    (hs : step makeError code s a = some s') : Inv s' := by
  refine ⟨hordered, fun hends' => ?_⟩
  cases a with
  | run =>
      obtain ⟨-, result, rfl, -⟩ | ⟨hends, -, hsource, -⟩ | ⟨hplace, -, rfl⟩ := run_cases hs
      · cases hends'
      · rw [hsource, h.undone hends]
      · rw [ends_destroy hplace] at hends'
        cases hends'
  | settle | resume | expire =>
      obtain ⟨hsource, -, hends⟩ := others_cases (by simp) hs
      rw [hsource, h.undone (hends hends')]

/-- The frame is destroyed variable by variable, and then the task has what it has been given, or
the error the coroutine is destroyed with. -/
theorem exec_leaving [DecidableEq T] (hplace : s.place = .leaving) :
    ∃ s', exec (step makeError code) s (.replicate (s.locals.length + 1) .run) = some s' ∧
      s'.place = .destroyed ∧ s'.locals = [] ∧
      s'.taskSource = (s.taskSource.or (s.errorOnDestroy.map .error)).or
        (some (.error (makeError "TaskSource is destroyed with no result"))) := by
  induction hlocals : s.locals generalizing s with
  | nil =>
      have hstep : step makeError code s .run = some (s.destroy makeError) := by
        simp only [step, State.run, hplace]
      refine ⟨_, Option.bind_eq_some_iff.mpr ⟨_, hstep, rfl⟩, ?_⟩
      simp only [State.destroy, hlocals]
      cases s.errorOnDestroy with
      | none => exact ⟨trivial, hlocals, by rw [Option.map_none, Option.or_none]; rfl⟩
      | some error => exact ⟨trivial, hlocals, rfl⟩
  | cons x locals ih =>
      have hstep : step makeError code s .run = some { s with locals := locals } := by
        simp only [step, State.run, hplace, State.destroy, hlocals]
      obtain ⟨s', hexec, hs'⟩ := ih (s := { s with locals := locals }) hplace rfl
      exact ⟨s', Option.bind_eq_some_iff.mpr ⟨_, hstep, hexec⟩, hs'⟩

end Steps

/-- **Errors and local variables.**  Along any run of a coroutine and of what it awaits, its task
has no error while a local variable of the frame is left if and only if the coroutine rejects the
task before it is destroyed only where it has no local variable. -/
theorem ordered_iff [DecidableEq T] (makeError : String → E) (code : P → Op P X V E T)
    (tasks : T → Option (Except E V)) (start : P) (actions : List (Action V E T)) :
    Allowed (step makeError code) (fun s a => ∀ s' ∈ step makeError code s a, s'.Ordered)
        (called tasks start) actions ↔
      Allowed (step makeError code) (Bare code) (called tasks start) actions :=
  allowed_congr (P := Inv) (fun h _ hordered hs => h.step (hordered _ hs) hs)
    (fun a h _ => h.ordered_iff_bare a) actions (inv_called tasks start) (allowed_free _ _)

/-- A coroutine with a variable that then does `op`. -/
def holding (op : Op Bool Unit Unit Unit Unit) : Bool → Op Bool Unit Unit Unit Unit
  | false => .declare () true
  | true  => op

/-- What is claimed, along the first operations of such a coroutine, whose awaited task has been
rejected. -/
def OrderedHolding (op : Op Bool Unit Unit Unit Unit) : Prop :=
  Allowed (step (fun _ => ()) (holding op))
    (fun s a => ∀ s' ∈ step (fun _ => ()) (holding op) s a, s'.Ordered)
    (called (fun _ => some (.error ())) false) [.run, .run, .run]

/-- `co_yield` of an error, an awaited `Result` with one, and an awaited task that has been
rejected: the task of the coroutine is rejected before its variable is destroyed. -/
theorem not_ordered :
    ¬ OrderedHolding (.yieldValue (some ())) ∧
      ¬ OrderedHolding (.awaitResult (.error ()) fun _ => true) ∧
      ¬ OrderedHolding (.awaitTask () fun _ => true) := by
  refine ⟨fun h => ?_, fun h => ?_, fun h => ?_⟩
  · exact List.cons_ne_nil () [] ((h.2 _ rfl).1 _ rfl () rfl)
  · exact List.cons_ne_nil () [] ((h.2 _ rfl).1 _ rfl () rfl)
  · exact List.cons_ne_nil () [] (((h.2 _ rfl).2 _ rfl).1 _ rfl () rfl)

end MyEngine.Async.CoroutineFrame
