import MyEngine.Async.CoreTask
import MyEngine.Support.Replace
import MyEngine.Threading.SpinLock
import Mathlib.Logic.Function.Basic

/-!
# Async — Reentry

An object with a mutex that completes tasks in its sections, and the coroutines that wait for these
tasks.  A task is completed, with `tryScheduleContinuation`, in one step; what it resumes on the
spot runs on top of the section.

* `Object`: what the operations of the object do before, inside and behind a section.
* `State`, `step`: the threads with their stacks, the tasks and what is posted to the executors.
* `Calm`: on top of a section there are only coroutines that do not call the object.
* `calm_of_steps`: as long as the continuations of a section are posted, or do not call the object,
  no thread asks for the mutex again.
-/

namespace MyEngine.Async.Reentry

open Runs Threading

/-! ### The object and its tasks -/

/-- What a call does when it has left the mutex. -/
inductive After (ω : Type) where
  | nothing
  | call (operation : ω)
  | await (task : ℕ) (operation : ω)
  | complete (task : ℕ)
  deriving DecidableEq

/-- What a call does when it has the mutex: `created` tells for each new task if it is ready,
`handsOut` are tasks that the caller gets, and `completes` those completed in the section. -/
structure Section (σ ω : Type) where
  object : σ
  created : List Bool := []
  handsOut : List ℕ := []
  completes : List ℕ := []
  after : After ω := .nothing

/-- `start` is what an operation does first, and if it goes on to the mutex; `enter` is given the
number of the next task; `leave` comes last in the section. -/
structure Object (σ ω : Type) where
  isPublic : ω → Bool
  start : ω → σ → σ × Bool
  enter : ω → ℕ → σ → Section σ ω
  leave : ω → σ → σ

/-- What a continuation resumes: a coroutine of the user, or an operation that is one itself. -/
inductive Resume (ω : Type) where
  | coroutine (coroutine : ℕ)
  | operation (operation : ω)
  deriving DecidableEq

/-- `start`, `call`, `inside` and `behind` are an operation before the section, at the mutex, in the
section with the tasks it has still to complete, and out of it. -/
inductive Frame (ω : Type) where
  | code (coroutine : ℕ)
  | start (operation : ω)
  | call (operation : ω)
  | inside (operation : ω) (completes : List ℕ) (after : After ω)
  | behind (after : After ω)
  deriving DecidableEq

abbrev Task (X ω : Type) := CoreTask X (Resume ω) Unit Unit

/-- `current` is `Executor::getCurrent()` on each thread. -/
structure State (σ X ω : Type) where
  object : σ
  mutex : SpinLock := {}
  tasks : List (Task X ω) := []
  handedOut : List ℕ := []
  posted : List (X × Resume ω) := []
  current : ℕ → Option X
  threads : List (List (Frame ω))

/-- `late` is a task that becomes ready behind `await_ready`. -/
inductive Action (X ω : Type) where
  | call (thread : ℕ) (operation : ω)
  | start (thread coroutine : ℕ)
  | await (thread task : ℕ) (late : Bool)
  | exit (thread : ℕ)
  | execute (thread index : ℕ)
  | setExecutor (thread : ℕ) (executor : Option X)
  | continueOnCaptured (task : ℕ) (isContinueOnCapturedExecutor : Bool)
  | work (thread : ℕ) (late : Bool)

variable {σ X ω : Type}

namespace Resume

def frame : Resume ω → Frame ω
  | coroutine c  => .code c
  | operation op => .call op

end Resume

/-- `tryResolve`, or `tryRejectWithError`, with `tryScheduleContinuation`. -/
def resolve (current : Option X) (t : Task X ω) : Task X ω × Option (Dispatch X (Resume ω)) :=
  match t.tryResolve none with
  | none   => (t, none)
  | some t =>
      ({ t with
          continuation := none
          flags := { t.flags with continuationScheduled := t.continuation.isSome } },
        t.continuation.map (t.dispatch current))

/-- `await_ready` and `await_suspend`. -/
def await (current : Option X) (late : Bool) (invocation : Resume ω) (t : Task X ω) :
    Task X ω × Option (Dispatch X (Resume ω)) :=
  let continuation := t.captured { executor := current, invocation := invocation }
  if t.flags.ready then
    if late then
      ({ t with flags := { t.flags with hasContinuation := true, continuationScheduled := true } },
        some (t.dispatch current continuation))
    else (t, some (.invoke invocation))
  else
    ({ t with
        continuation := some continuation
        flags := { t.flags with hasContinuation := true } }, none)

namespace State

def setStack (s : State σ X ω) (thread : ℕ) (stack : List (Frame ω)) : State σ X ω :=
  { s with threads := s.threads.set thread stack }

/-- Where the thread goes on when a continuation has been scheduled. -/
def dispatch (s : State σ X ω) (thread : ℕ) (rest : List (Frame ω)) :
    Option (Dispatch X (Resume ω)) → State σ X ω
  | none                                => s.setStack thread rest
  | some (.execute executor invocation) =>
      State.setStack { s with posted := s.posted ++ [(executor, invocation)] } thread rest
  | some (.invoke invocation)           => s.setStack thread (invocation.frame :: rest)

def resolveTask (s : State σ X ω) (thread : ℕ) (rest : List (Frame ω)) (task : ℕ) :
    Option (State σ X ω) :=
  s.tasks[task]?.map fun t =>
    let resolved := resolve (s.current thread) t
    State.dispatch { s with tasks := s.tasks.set task resolved.1 } thread rest resolved.2

def awaitTask (s : State σ X ω) (thread : ℕ) (rest : List (Frame ω)) (task : ℕ) (late : Bool)
    (invocation : Resume ω) : Option (State σ X ω) :=
  s.tasks[task]?.map fun t =>
    let awaited := await (s.current thread) late invocation t
    State.dispatch { s with tasks := s.tasks.set task awaited.1 } thread rest awaited.2

/-- A task that has been handed out and has not been awaited. -/
def isAwaitable (s : State σ X ω) (task : ℕ) : Bool :=
  task ∈ s.handedOut ∧ s.tasks[task]?.any fun t => !t.flags.hasContinuation

end State

/-! ### Steps -/

/-- Only the coroutines that `calls` tells of use the object, or let others run. -/
def mayCall (calls : ℕ → Bool) : List (Frame ω) → Bool
  | []           => true
  | .code c :: _ => calls c
  | _            => false

/-- The next operation of a thread with the frame on top of the rest. -/
def work (o : Object σ ω) (s : State σ X ω) (thread : ℕ) (late : Bool) (rest : List (Frame ω)) :
    Frame ω → Option (State σ X ω)
  | .code _                              => none
  | .start op                            =>
      let (object, locks) := o.start op s.object
      some (State.setStack { s with object } thread (if locks then .call op :: rest else rest))
  | .call op                             =>
      (s.mutex.lock thread).map fun mutex =>
        let entered := o.enter op s.tasks.length s.object
        State.setStack
          { s with
            mutex
            object := entered.object
            tasks := s.tasks ++ entered.created.map fun ready => { flags := { ready } }
            handedOut := s.handedOut ++ entered.handsOut }
          thread (.inside op entered.completes entered.after :: rest)
  | .inside op (task :: completes) after =>
      s.resolveTask thread (.inside op completes after :: rest) task
  | .inside op [] after                  =>
      some (State.setStack { s with object := o.leave op s.object, mutex := s.mutex.unlock } thread
        (.behind after :: rest))
  | .behind .nothing                     => some (s.setStack thread rest)
  | .behind (.call op)                   => some (s.setStack thread (.start op :: rest))
  | .behind (.await task op)             => s.awaitTask thread rest task late (.operation op)
  | .behind (.complete task)             => s.resolveTask thread rest task

def step (o : Object σ ω) (calls : ℕ → Bool) (s : State σ X ω) :
    Action X ω → Option (State σ X ω)
  | .call thread op            =>
      match s.threads[thread]? with
      | some stack =>
          if mayCall calls stack ∧ o.isPublic op then some (s.setStack thread (.start op :: stack))
          else none
      | none       => none
  | .start thread c            =>
      match s.threads[thread]? with
      | some stack =>
          if mayCall calls stack then some (s.setStack thread (.code c :: stack)) else none
      | none       => none
  | .await thread task late    =>
      match s.threads[thread]? with
      | some (.code c :: rest) =>
          if s.isAwaitable task then s.awaitTask thread rest task late (.coroutine c) else none
      | _                      => none
  | .exit thread               =>
      match s.threads[thread]? with
      | some (.code _ :: rest) => some (s.setStack thread rest)
      | _                      => none
  | .execute thread index      =>
      match s.threads[thread]?, s.posted[index]? with
      | some stack, some (executor, invocation) =>
          -- `Executor::InvokeGuard` is around the invocation
          if mayCall calls stack then
            some (State.setStack
              { s with
                posted := s.posted.eraseIdx index
                current := Function.update s.current thread (some executor) }
              thread (invocation.frame :: stack))
          else none
      | _, _                                    => none
  | .setExecutor thread x      => some { s with current := Function.update s.current thread x }
  | .continueOnCaptured task b =>
      if s.isAwaitable task then
        some { s with
          tasks := s.tasks.modify task fun t => { t with isContinueOnCapturedExecutor := b } }
      else none
  | .work thread late          =>
      match s.threads[thread]? with
      | some (frame :: rest) => work o s thread late rest frame
      | _                    => none

/-- `threads` is how many threads there are, none of them in a call. -/
def initial (object : σ) (current : ℕ → Option X) (threads : ℕ) : State σ X ω where
  object := object
  current := current
  threads := .replicate threads []

/-! ### Sections -/

def Frame.isInside : Frame ω → Bool
  | inside _ _ _ => true
  | _            => false

/-- The frame is of a coroutine that does not use the object. -/
def Frame.isQuiet (calls : ℕ → Bool) : Frame ω → Bool
  | code c => !calls c
  | _      => false

def inside (stack : List (Frame ω)) : Bool := stack.any Frame.isInside

/-- On top of a section everything is quiet. -/
def Calm (calls : ℕ → Bool) (stack : List (Frame ω)) : Prop :=
  stack.Pairwise fun frame below => below.isInside = true → frame.isQuiet calls = true

/-- A thread asks for the mutex that it holds. -/
def State.Reacquires (s : State σ X ω) : Prop :=
  ∃ thread operation rest, s.threads[thread]? = some (.call operation :: rest) ∧
    s.mutex.Recursive thread

/-- `tryScheduleContinuation` does not give the continuation to an executor. -/
def isInline (current : Option X) (t : Task X ω) (continuation : TaskContinuation X (Resume ω)) :
    Bool :=
  (continuation.executor.or current).isNone || !t.isContinueOnCapturedExecutor

/-- The step completes no task in the section, or one that nobody waits for, whose continuation goes
to an executor, or whose awaiter does not call the object. -/
def isHarmless (calls : ℕ → Bool) (s : State σ X ω) : Action X ω → Bool
  | .work thread _ =>
      match s.threads[thread]? with
      | some (.inside _ (task :: _) _ :: _) =>
          s.tasks[task]?.all fun t => t.flags.ready || t.continuation.all fun continuation =>
            !isInline (s.current thread) t continuation ||
              continuation.invocation.frame.isQuiet calls
      | _                                   => true
  | _              => true

structure Inv (calls : ℕ → Bool) (s : State σ X ω) : Prop where
  mutex : Owned s.mutex.threadOwner s.threads inside
  calm : ∀ stack ∈ s.threads, Calm calls stack

theorem dispatch_eq (current : Option X) (t : Task X ω)
    (continuation : TaskContinuation X (Resume ω)) :
    (isInline current t continuation = true →
      t.dispatch current continuation = .invoke continuation.invocation) ∧
    (isInline current t continuation = false →
      ∃ executor, t.dispatch current continuation = .execute executor continuation.invocation) := by
  rw [isInline, CoreTask.dispatch]
  cases continuation.executor.or current with
  | none => simp
  | some executor => cases t.isContinueOnCapturedExecutor <;> simp

theorem resolve_scheduled (current : Option X) (t : Task X ω) :
    (resolve current t).2 =
      if t.flags.ready then none else t.continuation.map (t.dispatch current) := by
  rw [resolve, CoreTask.tryResolve]
  cases t.flags.ready <;> rfl

/-- An awaiter resumes itself. -/
theorem await_scheduled {current : Option X} {late : Bool} {invocation invocation' : Resume ω}
    {t : Task X ω} (h : (await current late invocation t).2 = some (.invoke invocation')) :
    invocation' = invocation := by
  simp only [await] at h
  split at h
  · split at h
    · have hdispatch := t.dispatch_invocation current
        (t.captured { executor := current, invocation := invocation })
      rw [Option.some.inj h, CoreTask.captured_invocation] at hdispatch
      exact hdispatch
    · exact (Dispatch.invoke.inj (Option.some.inj h)).symm
  · cases h

theorem frame_not_inside (invocation : Resume ω) : invocation.frame.isInside = false := by
  cases invocation <;> rfl

namespace Calm

variable {calls : ℕ → Bool} {frame frame' : Frame ω} {rest : List (Frame ω)}

theorem tail (h : Calm calls (frame :: rest)) : Calm calls rest := h.of_cons

/-- Under a frame that is not quiet there is no section. -/
theorem not_inside (h : Calm calls (frame :: rest)) (hquiet : frame.isQuiet calls = false) :
    inside rest = false := by
  rw [inside, List.any_eq_false]
  intro below hbelow hinside
  exact absurd ((List.pairwise_cons.1 h).1 below hbelow hinside) (ne_true_of_eq_false hquiet)

/-- Outside of a section everything is calm. -/
theorem cons (h : Calm calls rest) (hrest : inside rest = false) : Calm calls (frame :: rest) := by
  refine List.pairwise_cons.2 ⟨fun below hbelow hinside => ?_, h⟩
  rw [inside, List.any_eq_false] at hrest
  exact absurd hinside (hrest below hbelow)

theorem cons_quiet (h : Calm calls rest) (hquiet : frame.isQuiet calls = true) :
    Calm calls (frame :: rest) :=
  List.pairwise_cons.2 ⟨fun _ _ _ => hquiet, h⟩

/-- A frame is replaced by another one. -/
theorem replace (h : Calm calls (frame :: rest)) (hquiet : frame.isQuiet calls = false) :
    Calm calls (frame' :: rest) :=
  h.tail.cons (h.not_inside hquiet)

/-- Code that may call runs outside of a section. -/
theorem outside (h : Calm calls rest) (hcall : mayCall calls rest = true) :
    inside rest = false := by
  cases rest with
  | nil => rfl
  | cons frame rest =>
      cases frame with
      | code c =>
          have hnot : (Frame.code c : Frame ω).isQuiet calls = false := by
            rw [Frame.isQuiet, show calls c = true from hcall]
            rfl
          exact h.not_inside hnot
      | _ => cases hcall

end Calm

theorem inside_cons {frame : Frame ω} {rest : List (Frame ω)} (h : frame.isInside = false) :
    inside (frame :: rest) = inside rest := by
  rw [inside, List.any_cons, h, Bool.false_or, inside]

namespace Inv

variable {o : Object σ ω} {calls : ℕ → Bool} {s s' : State σ X ω} {thread : ℕ}
  {frame : Frame ω} {old new rest : List (Frame ω)}

theorem init (object : σ) (current : ℕ → Option X) (threads : ℕ) :
    Inv calls (initial object current threads : State σ X ω) where
  mutex := Owned.replicate rfl
  calm stack hstack := by
    rw [List.eq_of_mem_replicate hstack]
    exact List.Pairwise.nil

theorem calm_of (h : Inv calls s) (hstack : s.threads[thread]? = some old) : Calm calls old :=
  h.calm old (List.mem_of_getElem? hstack)

theorem calm_set (h : Inv calls s) (hcalm : Calm calls new) :
    ∀ stack ∈ s.threads.set thread new, Calm calls stack :=
  forall_mem_set h.calm hcalm

/-- A step of one stack that neither takes nor leaves the mutex. -/
theorem keep (h : Inv calls s) (hstack : s.threads[thread]? = some old)
    (hthreads : s'.threads = s.threads.set thread new) (hmutex : s'.mutex = s.mutex)
    (hcalm : Calm calls new) (hinside : inside new = inside old) : Inv calls s' := by
  refine ⟨?_, hthreads ▸ h.calm_set hcalm⟩
  rw [hmutex, hthreads]
  exact h.mutex.keep hstack hinside

/-- Code that may call goes on in something else. -/
theorem push (h : Inv calls s) (hstack : s.threads[thread]? = some old)
    (hmay : mayCall calls old = true) (hframe : frame.isInside = false)
    (hthreads : s'.threads = s.threads.set thread (frame :: old)) (hmutex : s'.mutex = s.mutex) :
    Inv calls s' := by
  have hcalm := h.calm_of hstack
  exact h.keep hstack hthreads hmutex (hcalm.cons (hcalm.outside hmay)) (inside_cons hframe)

/-- One that changes no stack. -/
theorem congr (h : Inv calls s) (hthreads : s'.threads = s.threads) (hmutex : s'.mutex = s.mutex) :
    Inv calls s' := by
  refine ⟨?_, hthreads ▸ h.calm⟩
  rw [hmutex, hthreads]
  exact h.mutex

theorem dispatch (h : Inv calls s) (tasks : List (Task X ω))
    (hstack : s.threads[thread]? = some old) (hinside : inside rest = inside old)
    (hcalm : Calm calls rest) {scheduled : Option (Dispatch X (Resume ω))}
    (hinvoke : ∀ invocation, scheduled = some (.invoke invocation) →
      Calm calls (invocation.frame :: rest)) :
    Inv calls (State.dispatch { s with tasks := tasks } thread rest scheduled) := by
  cases scheduled with
  | none => exact h.keep hstack rfl rfl hcalm hinside
  | some scheduled =>
      cases scheduled with
      | execute executor invocation => exact h.keep hstack rfl rfl hcalm hinside
      | invoke invocation =>
          refine h.keep hstack rfl rfl (hinvoke invocation rfl) ?_
          rw [inside_cons (frame_not_inside invocation), hinside]

/-- A call takes the mutex. -/
theorem lock (h : Inv calls s) {mutex : SpinLock} {operation : ω}
    (hlock : s.mutex.lock thread = some mutex)
    (hstack : s.threads[thread]? = some (.call operation :: rest)) (hframe : frame.isInside = true)
    (hthreads : s'.threads = s.threads.set thread (frame :: rest)) (hmutex : s'.mutex = mutex) :
    Inv calls s' := by
  obtain ⟨hfree, rfl⟩ := SpinLock.lock_eq_some hlock
  refine ⟨?_, hthreads ▸ h.calm_set ((h.calm_of hstack).replace rfl)⟩
  have howned := h.mutex
  rw [hfree] at howned
  rw [hmutex, hthreads]
  refine howned.take hstack ?_
  rw [inside, List.any_cons, hframe, Bool.true_or]

/-- It leaves the mutex, of which it has only the one section. -/
theorem unlock (h : Inv calls s) {operation : ω} {completes : List ℕ} {after : After ω}
    (hstack : s.threads[thread]? = some (.inside operation completes after :: rest))
    (hthreads : s'.threads = s.threads.set thread (.behind after :: rest))
    (hmutex : s'.mutex = s.mutex.unlock) : Inv calls s' := by
  have hcalm := h.calm_of hstack
  refine ⟨?_, hthreads ▸ h.calm_set (hcalm.replace rfl)⟩
  rw [hmutex, hthreads]
  refine h.mutex.release hstack rfl ?_
  rw [inside_cons rfl]
  exact hcalm.not_inside rfl

/-- A task is completed: in the section only what is quiet may be resumed on the spot. -/
theorem resolveTask (h : Inv calls s) {task : ℕ} (hs : s.resolveTask thread rest task = some s')
    (hstack : s.threads[thread]? = some old) (hinside : inside rest = inside old)
    (hcalm : Calm calls rest)
    (hinvoke : inside rest = false ∨ ∀ t continuation, s.tasks[task]? = some t →
      t.flags.ready = false → t.continuation = some continuation →
      isInline (s.current thread) t continuation = true →
      continuation.invocation.frame.isQuiet calls = true) : Inv calls s' := by
  obtain ⟨t, ht, rfl⟩ := Option.map_eq_some_iff.1 hs
  refine h.dispatch _ hstack hinside hcalm fun invocation hscheduled => ?_
  rcases hinvoke with hrest | hquiet
  · exact hcalm.cons hrest
  · refine hcalm.cons_quiet ?_
    rw [resolve_scheduled] at hscheduled
    split at hscheduled
    · cases hscheduled
    · next hready =>
      obtain ⟨continuation, hcontinuation, hdispatch⟩ := Option.map_eq_some_iff.1 hscheduled
      cases hinline : isInline (s.current thread) t continuation with
      | true =>
          have hinvoked := (dispatch_eq (s.current thread) t continuation).1 hinline
          obtain rfl := Dispatch.invoke.inj (hinvoked.symm.trans hdispatch)
          exact hquiet t continuation ht (Bool.not_eq_true _ ▸ hready) hcontinuation hinline
      | false =>
          obtain ⟨executor, hexecuted⟩ := (dispatch_eq (s.current thread) t continuation).2 hinline
          cases hexecuted.symm.trans hdispatch

/-- A task is awaited: it is the awaiter itself that may go on. -/
theorem awaitTask (h : Inv calls s) {task : ℕ} {late : Bool} {invocation : Resume ω}
    (hs : s.awaitTask thread rest task late invocation = some s')
    (hstack : s.threads[thread]? = some old) (hinside : inside rest = inside old)
    (hcalm : Calm calls (invocation.frame :: rest)) : Inv calls s' := by
  obtain ⟨t, -, rfl⟩ := Option.map_eq_some_iff.1 hs
  refine h.dispatch _ hstack hinside hcalm.tail fun invocation' hscheduled => ?_
  rw [await_scheduled hscheduled]
  exact hcalm

theorem work (h : Inv calls s) {late : Bool}
    (hstack : s.threads[thread]? = some (frame :: rest))
    (hharmless : isHarmless calls s (.work thread late : Action X ω) = true)
    (hs : work o s thread late rest frame = some s') : Inv calls s' := by
  have hcalm := h.calm_of hstack
  cases frame with
  | code c => cases hs
  | start op =>
      obtain rfl := Option.some.inj hs
      split
      · exact h.keep hstack rfl rfl (hcalm.replace rfl) rfl
      · exact h.keep hstack rfl rfl hcalm.tail rfl
  | call op =>
      obtain ⟨mutex, hlock, rfl⟩ := Option.map_eq_some_iff.1 hs
      exact h.lock hlock hstack rfl rfl rfl
  | inside op completes after =>
      cases completes with
      | nil =>
          obtain rfl := Option.some.inj hs
          exact h.unlock hstack rfl rfl
      | cons task completes =>
          refine h.resolveTask hs hstack rfl (hcalm.replace rfl) (.inr ?_)
          intro t continuation ht hready hcontinuation hinline
          rw [isHarmless, hstack] at hharmless
          dsimp only at hharmless
          rw [ht, Option.all_some, hready, Bool.false_or, hcontinuation, Option.all_some, hinline,
            Bool.not_true, Bool.false_or] at hharmless
          exact hharmless
  | behind after =>
      -- the call has left its section, and is in no other
      have hrest : inside rest = false := hcalm.not_inside rfl
      cases after with
      | nothing =>
          obtain rfl := Option.some.inj hs
          exact h.keep hstack rfl rfl hcalm.tail rfl
      | call op =>
          obtain rfl := Option.some.inj hs
          exact h.keep hstack rfl rfl (hcalm.replace rfl) rfl
      | await task op => exact h.awaitTask hs hstack rfl (hcalm.replace rfl)
      | complete task => exact h.resolveTask hs hstack rfl hcalm.tail (.inl hrest)

theorem step {a : Action X ω} (h : Inv calls s) (hharmless : isHarmless calls s a = true)
    (hs : step o calls s a = some s') : Inv calls s' := by
  cases a with
  | call thread op =>
      rw [Reentry.step] at hs
      split at hs
      · next stack hstack =>
        split at hs
        · next hmay =>
          obtain rfl := Option.some.inj hs
          exact h.push hstack hmay.1 rfl rfl rfl
        · cases hs
      · cases hs
  | start thread c =>
      rw [Reentry.step] at hs
      split at hs
      · next stack hstack =>
        split at hs
        · next hmay =>
          obtain rfl := Option.some.inj hs
          exact h.push hstack hmay rfl rfl rfl
        · cases hs
      · cases hs
  | await thread task late =>
      rw [Reentry.step] at hs
      split at hs
      · next c rest hstack =>
        split at hs
        · exact h.awaitTask hs hstack (inside_cons rfl).symm (h.calm_of hstack)
        · cases hs
      · cases hs
  | exit thread =>
      rw [Reentry.step] at hs
      split at hs
      · next c rest hstack =>
        obtain rfl := Option.some.inj hs
        exact h.keep hstack rfl rfl (h.calm_of hstack).tail (inside_cons rfl).symm
      · cases hs
  | execute thread index =>
      rw [Reentry.step] at hs
      split at hs
      · next stack executor invocation hstack hposted =>
        split at hs
        · next hmay =>
          obtain rfl := Option.some.inj hs
          exact h.push hstack hmay (frame_not_inside invocation) rfl rfl
        · cases hs
      · cases hs
  | setExecutor thread x => exact Option.some.inj hs ▸ h.congr rfl rfl
  | continueOnCaptured task b =>
      rw [Reentry.step] at hs
      split at hs
      · exact Option.some.inj hs ▸ h.congr rfl rfl
      · cases hs
  | work thread late =>
      rw [Reentry.step] at hs
      split at hs
      · next frame rest hstack => exact h.work hstack hharmless hs
      · cases hs

theorem not_reacquires (h : Inv calls s) : ¬ s.Reacquires := by
  rintro ⟨thread, operation, rest, hstack, hrecursive⟩
  obtain ⟨stack, hstack', hinside⟩ := (h.mutex thread).1 hrecursive
  obtain rfl := Option.some.inj (hstack.symm.trans hstack')
  rw [inside_cons rfl] at hinside
  exact absurd hinside (ne_true_of_eq_false ((h.calm_of hstack).not_inside rfl))

/-- Code that has the mutex and calls the object. -/
theorem probe_reacquires {probe : ω} {stack : List (Frame ω)} (hpublic : o.isPublic probe = true)
    (hprobe : ∀ object, (o.start probe object).2 = true)
    (hstack : s.threads[thread]? = some stack) (hmay : mayCall calls stack = true)
    (hrecursive : s.mutex.Recursive thread) :
    ∃ as s', exec (Reentry.step o calls) s as = some s' ∧ s'.Reacquires := by
  have hcall : Reentry.step o calls s (.call thread probe) =
      some (s.setStack thread (.start probe :: stack)) := by
    rw [Reentry.step, hstack]
    exact if_pos ⟨hmay, hpublic⟩
  have hset : (s.setStack thread (.start probe :: stack)).threads[thread]? =
      some (.start probe :: stack) := getElem?_replaced hstack _
  obtain ⟨s', hstart, hthreads, hmutex⟩ : ∃ s',
      Reentry.step o calls (s.setStack thread (.start probe :: stack)) (.work thread false) =
        some s' ∧
      s'.threads =
        (s.threads.set thread (.start probe :: stack)).set thread (.call probe :: stack) ∧
      s'.mutex = s.mutex := by
    refine ⟨State.setStack
      { s.setStack thread (.start probe :: stack) with object := (o.start probe s.object).1 } thread
      (.call probe :: stack), ?_, rfl, rfl⟩
    rw [Reentry.step, hset]
    exact congrArg (fun locks => some (State.setStack
      { s.setStack thread (.start probe :: stack) with object := (o.start probe s.object).1 } thread
        (if locks then .call probe :: stack else stack))) (hprobe s.object)
  refine ⟨[.call thread probe, .work thread false], s', ?_, thread, probe, stack, ?_, ?_⟩
  · rw [exec, hcall, Option.bind_some, exec, hstart, Option.bind_some, exec]
  · rw [hthreads]
    exact getElem?_replaced (getElem?_replaced hstack _) _
  · rw [hmutex]
    exact hrecursive

/-- What is resumed on top of the section, and is not quiet, comes to ask for the mutex. -/
theorem invoke_reacquires {probe : ω} (hpublic : o.isPublic probe = true)
    (hprobe : ∀ object, (o.start probe object).2 = true) {invocation : Resume ω}
    (hstack : s.threads[thread]? = some old) (hrecursive : s.mutex.Recursive thread)
    (hloud : invocation.frame.isQuiet calls = false) :
    ∃ as s', exec (Reentry.step o calls) (s.setStack thread (invocation.frame :: rest)) as =
      some s' ∧ s'.Reacquires := by
  have hset : (s.setStack thread (invocation.frame :: rest)).threads[thread]? =
      some (invocation.frame :: rest) := getElem?_replaced hstack _
  cases invocation with
  | operation op => exact ⟨[], _, rfl, thread, op, rest, hset, hrecursive⟩
  | coroutine c =>
      refine probe_reacquires hpublic hprobe hset ?_ hrecursive
      rw [Resume.frame, Frame.isQuiet, Bool.not_eq_false'] at hloud
      exact hloud

/-- A step that is not harmless resumes somebody in the section: an operation asks for the mutex
then, and a coroutine when it calls the object. -/
theorem reacquires (h : Inv calls s) {a : Action X ω} {probe : ω}
    (hpublic : o.isPublic probe = true) (hprobe : ∀ object, (o.start probe object).2 = true)
    (hharmless : isHarmless calls s a = false) (hs : Reentry.step o calls s a = some s') :
    ∃ as s'', exec (Reentry.step o calls) s' as = some s'' ∧ s''.Reacquires := by
  cases a with
  | work thread late =>
      rw [isHarmless] at hharmless
      split at hharmless
      · next op task completes after rest hstack =>
        rw [Reentry.step, hstack] at hs
        dsimp only at hs
        obtain ⟨t, ht, rfl⟩ := Option.map_eq_some_iff.1 hs
        rw [ht, Option.all_some, Bool.or_eq_false_iff] at hharmless
        obtain ⟨hready, hloud⟩ := hharmless
        cases hcontinuation : t.continuation with
        | none => rw [hcontinuation] at hloud; cases hloud
        | some continuation =>
            rw [hcontinuation, Option.all_some, Bool.or_eq_false_iff, Bool.not_eq_false'] at hloud
            have hinvoked := (dispatch_eq (s.current thread) t continuation).1 hloud.1
            have hresolve : (resolve (s.current thread) t).2 =
                some (.invoke continuation.invocation) := by
              rw [resolve_scheduled, if_neg (ne_true_of_eq_false hready), hcontinuation,
                Option.map_some, hinvoked]
            have hrecursive : s.mutex.Recursive thread := (h.mutex thread).2 ⟨_, hstack, rfl⟩
            dsimp only
            rw [hresolve]
            exact invoke_reacquires hpublic hprobe hstack hrecursive hloud.2
      · cases hharmless
  | _ => cases hharmless

end Inv

/-- No thread asks for the mutex it has as long as every step is harmless, and from the first that
is not a run leads to one that does. -/
theorem calm_of_steps {o : Object σ ω} {calls : ℕ → Bool} (probe : ω)
    (hpublic : o.isPublic probe = true) (hprobe : ∀ object, (o.start probe object).2 = true)
    {object : σ} {current : ℕ → Option X} {threads : ℕ} {s : State σ X ω}
    (h : Steps (step o calls) (fun s a => isHarmless calls s a = true)
      (initial object current threads) s) :
    ¬ s.Reacquires ∧ ∀ a s', step o calls s a = some s' → isHarmless calls s a = false →
      ∃ as s'', exec (step o calls) s' as = some s'' ∧ s''.Reacquires := by
  have hinv : Inv calls s := h.invariant (fun h hharmless hs => h.step hharmless hs)
    (Inv.init object current threads)
  exact ⟨hinv.not_reacquires, fun a s' hs hharmless =>
    hinv.reacquires hpublic hprobe hharmless hs⟩

end MyEngine.Async.Reentry
