import Mathlib.Algebra.Group.Nat.Defs
import Mathlib.Data.List.Nodup
import MyEngine.Support.Replace
import MyEngine.Support.Runs

/-!
# Network — StreamWrites

`StreamSocket::write`, from the call to the end of its task, while the stream is closed at any time:
the coroutine with the request and the buffer in its frame, and libuv, which refers to them.

* `Call`: a coroutine, what `uv_write` has accepted of it, and the completions of its task.
* `step`: a call, its part on the runtime thread, the callbacks of libuv, the closing.
* `Sound`: each task is completed once, with what has become of the write, and what libuv refers to
  is there.
* `Standing`: how a call can stand.
* `writes_iff`: when exactly all runs are sound.
-/

namespace MyEngine.Network.Writing

open MyEngine.Runs

-- the errors of libuv
variable {E : Type}

/-! ### The coroutines -/

inductive WriteError (E : Type) where
  | disposed
  | notWritable
  | uv (code : E)
  deriving DecidableEq, Repr

/-- Where a coroutine is: it switches to the runtime thread, awaits the task of its source, is to be
resumed, or has been destroyed, with all that is in its frame. -/
inductive Place where
  | switching
  | awaiting
  | scheduled
  | destroyed
  deriving DecidableEq, Repr

/-- The bytes that `uv_write` has accepted, and the status its callback has come with. -/
structure Request (E : Type) where
  length : ℕ
  status : Option (Option E) := none

/-- The size of the buffer is the whole of it; `completions` are those of the task. -/
structure Call (E : Type) where
  size : ℕ
  place : Place := .switching
  request : Option (Request E) := none
  taskSource : Option (Except (WriteError E) Unit) := none
  completions : List (Except (WriteError E) Unit) := []

namespace Call

/-- The task is completed, and the coroutine is destroyed. -/
def finish (c : Call E) (result : Except (WriteError E) Unit) : Call E :=
  { c with place := .destroyed, completions := c.completions ++ [result] }

/-- `resolve` and `reject`; who awaits the task is scheduled to the executor it came from. -/
def complete (c : Call E) (result : Except (WriteError E) Unit) : Call E :=
  match c.taskSource with
  | some _ => c
  | none   => { c with
      taskSource := some result
      place := if c.place = .awaiting then .scheduled else c.place }

/-- What the callback completes the source with. -/
def callbackResult : Option E → Except (WriteError E) Unit
  | some code => .error (.uv code)
  | none      => .ok ()

def writeCallback (c : Call E) (status : Option E) : Call E :=
  let request := c.request.map fun r => { r with status := some status }
  { c with request := request }.complete (callbackResult status)

/-- The continuation of the awaiter destroys the coroutine with an error, or resumes it. -/
def resume (c : Call E) : Call E :=
  match c.taskSource with
  | some (.error error) => c.finish (.error error)
  | _                   => c.finish (.ok ())

end Call

/-! ### The stream -/

/-- A handle of libuv, which is shut down or closed at once, and freed behind the closing. -/
inductive Handle where
  | opened
  | shutdown
  | closing
  | freed
  deriving DecidableEq, Repr

/-- The members, the handle, the calls, and whose requests libuv has to call back. -/
structure State (E : Type) where
  stream : Bool := true
  isDisposed : Bool := false
  closing : Bool := false
  handle : Handle := .opened
  calls : List (Call E) := []
  inFlight : List ℕ := []

/-- `ULONG` has 32 bits. -/
def ulong (size : ℕ) : ℕ := size % 2 ^ 32

/-- With the result of `uv_shutdown`. -/
def closeAndFreeUvHandle (uvIsWritable uvIsActive : Bool) (result : Option E) : Handle :=
  if uvIsWritable && uvIsActive then
    match result with
    | none   => .shutdown
    | some _ => .closing
  else .closing

namespace State

/-- `m_stream.reset()`. -/
def reset (s : State E) (uvIsWritable uvIsActive : Bool) (result : Option E) : State E :=
  if s.stream then
    { s with stream := false, handle := closeAndFreeUvHandle uvIsWritable uvIsActive result }
  else s

/-- `write` on the thread of its caller. -/
def callWrite (s : State E) (size : ℕ) : State E :=
  { s with calls := s.calls ++
      [if s.isDisposed then { size, place := .destroyed, completions := [.error .disposed] }
        else { size }] }

def setCall (s : State E) (call : ℕ) (c : Call E) : State E :=
  { s with calls := s.calls.set call c }

/-- `write` on the runtime thread, with the result of `uv_write`.  It returns with no error where
`uv_write` has one. -/
def write (s : State E) (call : ℕ) (c : Call E) (uvIsWritable : Bool) (result : Option E) :
    State E :=
  if !s.stream || !uvIsWritable then s.setCall call (c.finish (.error .notWritable))
  else
    match result with
    | some _ => s.setCall call (c.finish (.ok ()))
    | none   => { s with
        calls := s.calls.set call
          { c with place := .awaiting, request := some { length := ulong c.size } }
        inFlight := s.inFlight ++ [call] }

def writeCallback (s : State E) (call : ℕ) (status : Option E) : State E :=
  { s with
    calls := s.calls.modify call fun c => c.writeCallback status
    inFlight := s.inFlight.erase call }

/-- `doDispose`, to the callback on the runtime thread. -/
def dispose (s : State E) : State E :=
  if s.isDisposed then s else { s with isDisposed := true, closing := true }

/-- The callback of `closeStream`. -/
def closeStream (s : State E) (uvIsWritable uvIsActive : Bool) (result : Option E) : State E :=
  { s with closing := false }.reset uvIsWritable uvIsActive result

end State

/-- `readFailed` is a read callback with an error or the end of the stream, which resets it. -/
inductive Action (E : Type) where
  | callWrite (size : ℕ)
  | write (call : ℕ) (uvIsWritable : Bool) (result : Option E)
  | writeCallback (call : ℕ) (status : Option E)
  | resume (call : ℕ)
  | dispose
  | closeStream (uvIsWritable uvIsActive : Bool) (result : Option E)
  | readFailed (uvIsWritable uvIsActive : Bool) (result : Option E)
  | shutdownCallback
  | closeCallback

/-- libuv calls back every request it has accepted once, before the callbacks of `uv_shutdown` and
of `uv_close`. -/
def step (s : State E) : Action E → Option (State E)
  | .callWrite size                   => some (s.callWrite size)
  | .write call uvIsWritable result   =>
      match s.calls[call]? with
      | some c =>
          if c.place = .switching then some (s.write call c uvIsWritable result) else none
      | none   => none
  | .writeCallback call status        =>
      if call ∈ s.inFlight ∧ s.handle ≠ .freed then some (s.writeCallback call status) else none
  | .resume call                      =>
      match s.calls[call]? with
      | some c => if c.place = .scheduled then some (s.setCall call c.resume) else none
      | none   => none
  | .dispose                          => some s.dispose
  | .closeStream uvIsWritable uvIsActive result =>
      if s.closing then some (s.closeStream uvIsWritable uvIsActive result) else none
  | .readFailed uvIsWritable uvIsActive result =>
      if s.stream then some (s.reset uvIsWritable uvIsActive result) else none
  | .shutdownCallback                 =>
      if s.handle = .shutdown ∧ s.inFlight = [] then some { s with handle := .closing } else none
  | .closeCallback                    =>
      if s.handle = .closing ∧ s.inFlight = [] then some { s with handle := .freed } else none

/-! ### What is claimed of the tasks -/

/-- An action of the executor or of libuv for a call. -/
inductive Serves (call : ℕ) : Action E → Prop where
  | write (uvIsWritable : Bool) (result : Option E) :
      Serves call (.write call uvIsWritable result)
  | writeCallback (status : Option E) : Serves call (.writeCallback call status)
  | resume : Serves call (.resume call)

/-- A task is completed once, when all that serves its call has been done, and with no error if and
only if the whole buffer has been accepted and written.  What libuv refers to has not been
destroyed. -/
structure Sound (s : State E) : Prop where
  once : ∀ c ∈ s.calls, c.completions.length ≤ 1
  completed : ∀ (call : ℕ) (c : Call E), s.calls[call]? = some c →
    c.completions ≠ [] ∨ ∃ a, Serves call a ∧ step s a ≠ none
  success : ∀ c ∈ s.calls, ∀ result ∈ c.completions,
    result = .ok () ↔ c.request = some { length := c.size, status := some none }
  alive : ∀ call ∈ s.inFlight, ∃ c, s.calls[call]? = some c ∧ c.place ≠ .destroyed

def Keeps (s : State E) (a : Action E) : Prop := ∀ s', step s a = some s' → Sound s'

/-- `uv_write` accepts what it is called with, and a buffer that does not fit into a `ULONG` has not
been written. -/
def Whole (s : State E) : Action E → Prop
  | .write call uvIsWritable result =>
      match s.calls[call]? with
      | some c => c.place = .switching → s.stream = true → uvIsWritable = true → result = none
      | none   => True
  | .resume call =>
      match s.calls[call]? with
      | some c => c.place = .scheduled → c.taskSource = some (.ok ()) → c.size < 2 ^ 32
      | none   => True
  | _ => True

/-! ### How a call can stand -/

/-- The request is in flight while the coroutine awaits the source. -/
inductive Standing : Call E → Bool → Prop where
  | switching (size : ℕ) : Standing { size } false
  | awaiting (size : ℕ) :
      Standing { size, place := .awaiting, request := some { length := ulong size } } true
  | scheduled (size : ℕ) (status : Option E) :
      Standing {
        size
        place := .scheduled
        request := some { length := ulong size, status := some status }
        taskSource := some (Call.callbackResult status) } false
  | destroyed {c : Call E} (result : Except (WriteError E) Unit) (hplace : c.place = .destroyed)
      (hcompletions : c.completions = [result])
      (hresult : result = .ok () ↔
        c.request = some { length := c.size, status := some none }) : Standing c false

structure Inv (s : State E) : Prop where
  standing : ∀ (call : ℕ) (c : Call E), s.calls[call]? = some c →
    Standing c (decide (call ∈ s.inFlight))
  nodup : s.inFlight.Nodup
  there : ∀ call ∈ s.inFlight, call < s.calls.length
  opened : s.stream = true → s.handle = .opened
  freed : s.handle = .freed → s.inFlight = []

variable {s s' : State E} {a : Action E} {call : ℕ} {c c' : Call E}

theorem standing_of {b : Bool} (hs : Inv s) (hcall : s.calls[call]? = some c)
    (h : decide (call ∈ s.inFlight) = b) : Standing c b := by
  rw [← h]
  exact hs.standing call c hcall

theorem standing_of_mem (hs : Inv s) (hc : c ∈ s.calls) : ∃ b, Standing c b := by
  obtain ⟨call, hcall⟩ := List.getElem?_of_mem hc
  exact ⟨_, hs.standing call c hcall⟩

theorem sound_of_inv (hs : Inv s) : Sound s where
  once := by
    intro c hc
    obtain ⟨b, hstanding⟩ := standing_of_mem hs hc
    cases hstanding with
    | switching | awaiting | scheduled => exact Nat.zero_le 1
    | destroyed result _ hcompletions _ => rw [hcompletions]; exact Nat.le_refl 1
  completed := by
    intro call c hcall
    generalize hflight : decide (call ∈ s.inFlight) = b
    cases standing_of hs hcall hflight with
    | switching size =>
        refine .inr ⟨.write call true none, .write _ _, ?_⟩
        simp [step, hcall]
    | awaiting size =>
        have hin := of_decide_eq_true hflight
        refine .inr ⟨.writeCallback call none, .writeCallback _, ?_⟩
        have hfreed : s.handle ≠ .freed := fun h => by
          rw [hs.freed h] at hin
          cases hin
        simp [step, hin, hfreed]
    | scheduled size status =>
        refine .inr ⟨.resume call, .resume, ?_⟩
        simp [step, hcall]
    | destroyed result _ hcompletions _ => exact .inl (by simp [hcompletions])
  success := by
    intro c hc result hresult
    obtain ⟨b, hstanding⟩ := standing_of_mem hs hc
    cases hstanding with
    | switching | awaiting | scheduled => cases hresult
    | destroyed result' _ hcompletions hiff =>
        rw [hcompletions] at hresult
        obtain rfl := List.mem_singleton.1 hresult
        exact hiff
  alive := by
    intro call hin
    obtain ⟨c, hcall⟩ : ∃ c, s.calls[call]? = some c :=
      ⟨_, List.getElem?_eq_getElem (hs.there call hin)⟩
    refine ⟨c, hcall, ?_⟩
    cases standing_of hs hcall (decide_eq_true hin) with
    | awaiting => exact fun h => by cases h

/-- A call moves, and with it what is in flight. -/
theorem inv_setCall {inFlight : List ℕ} (hs : Inv s) (hcall : s.calls[call]? = some c)
    (hc' : Standing c' (decide (call ∈ inFlight)))
    (hothers : ∀ other, other ≠ call → (other ∈ inFlight ↔ other ∈ s.inFlight))
    (hnodup : inFlight.Nodup) (hfreed : s.handle = .freed → inFlight = []) :
    Inv { s with calls := s.calls.set call c', inFlight := inFlight } where
  standing := by
    intro other d hd
    rcases getElem?_set_cases hd with ⟨rfl, rfl⟩ | ⟨hne, hother⟩
    · exact hc'
    · dsimp only
      rw [decide_eq_decide.2 (hothers other (Ne.symm hne))]
      exact hs.standing other d hother
  nodup := hnodup
  there := by
    intro other hin
    rw [List.length_set]
    by_cases heq : other = call
    · rw [heq]
      exact (List.getElem?_eq_some_iff.1 hcall).1
    · exact hs.there other ((hothers other heq).1 hin)
  opened := hs.opened
  freed := hfreed

/-- A call that has nothing in flight moves. -/
theorem inv_set (hs : Inv s) (hcall : s.calls[call]? = some c) (hnot : call ∉ s.inFlight)
    (hc' : Standing c' false) : Inv (s.setCall call c') := by
  refine inv_setCall hs hcall ?_ (fun _ _ => Iff.rfl) hs.nodup hs.freed
  rwa [decide_eq_false hnot]

/-- A call without completions is completed. -/
theorem standing_finish {result : Except (WriteError E) Unit} (hcompletions : c.completions = [])
    (hresult : result = .ok () ↔ c.request = some { length := c.size, status := some none }) :
    Standing (c.finish result) false :=
  .destroyed result rfl (by rw [Call.finish, hcompletions]; rfl) hresult

theorem inv_callWrite {size : ℕ} (hs : Inv s) : Inv (s.callWrite size) where
  standing := by
    intro call c hcall
    rcases getElem?_concat_cases hcall with hcall | ⟨rfl, rfl⟩
    · exact hs.standing call c hcall
    · have hnot : s.calls.length ∉ s.inFlight := fun h => Nat.lt_irrefl _ (hs.there _ h)
      rw [State.callWrite, decide_eq_false hnot]
      split
      next => exact .destroyed _ rfl rfl (iff_of_false (fun h => by cases h) (fun h => by cases h))
      next => exact .switching size
  nodup := hs.nodup
  there := by
    intro call hin
    rw [State.callWrite, List.length_append]
    exact Nat.lt_add_right _ (hs.there call hin)
  opened := hs.opened
  freed := hs.freed

/-- A coroutine that comes to the runtime thread. -/
theorem switching_of (hs : Inv s) (hcall : s.calls[call]? = some c)
    (hplace : c.place = .switching) : call ∉ s.inFlight ∧ c = { size := c.size } := by
  generalize hflight : decide (call ∈ s.inFlight) = b
  cases standing_of hs hcall hflight with
  | switching size => exact ⟨of_decide_eq_false hflight, rfl⟩
  | awaiting | scheduled => cases hplace
  | destroyed _ hdestroyed => cases hplace.symm.trans hdestroyed

/-- One whose callback has run. -/
theorem scheduled_of (hs : Inv s) (hcall : s.calls[call]? = some c)
    (hplace : c.place = .scheduled) : call ∉ s.inFlight ∧ c.completions = [] ∧ ∃ status,
      c.request = some { length := ulong c.size, status := some status } ∧
        c.taskSource = some (Call.callbackResult status) := by
  generalize hflight : decide (call ∈ s.inFlight) = b
  cases standing_of hs hcall hflight with
  | scheduled size status => exact ⟨of_decide_eq_false hflight, rfl, status, rfl, rfl⟩
  | switching | awaiting => cases hplace
  | destroyed _ hdestroyed => cases hplace.symm.trans hdestroyed

theorem inv_write {uvIsWritable : Bool} {result : Option E} (hs : Inv s)
    (hcall : s.calls[call]? = some c) (hplace : c.place = .switching)
    (haccepted : s.stream = true → uvIsWritable = true → result = none) :
    Inv (s.write call c uvIsWritable result) := by
  obtain ⟨hnot, hc⟩ := switching_of hs hcall hplace
  have hcompletions : c.completions = [] := by rw [hc]
  have hrequest : c.request = none := by rw [hc]
  unfold State.write
  split
  next =>
    refine inv_set hs hcall hnot (standing_finish hcompletions ?_)
    rw [hrequest]
    exact iff_of_false (fun h => by cases h) (fun h => by cases h)
  next hopen =>
    obtain ⟨hstream, hwritable⟩ : s.stream = true ∧ uvIsWritable = true := by simpa using hopen
    obtain rfl := haccepted hstream hwritable
    refine inv_setCall hs hcall ?_ ?_ ?_ ?_
    · rw [decide_eq_true (List.mem_append_right _ (List.mem_singleton_self call)), hc]
      exact .awaiting c.size
    · intro other hne
      simp [hne]
    · exact List.nodup_append.2 ⟨hs.nodup, List.nodup_singleton call, by
        rintro i hi j hj rfl
        obtain rfl := List.mem_singleton.1 hj
        exact hnot hi⟩
    · intro hfreed
      cases (hs.opened hstream).symm.trans hfreed

theorem inv_writeCallback {status : Option E} (hs : Inv s) (hin : call ∈ s.inFlight) :
    Inv (s.writeCallback call status) := by
  obtain ⟨c, hcall⟩ : ∃ c, s.calls[call]? = some c :=
    ⟨_, List.getElem?_eq_getElem (hs.there call hin)⟩
  have hset : s.calls.modify call (fun c => c.writeCallback status) =
      s.calls.set call (c.writeCallback status) := by
    rw [List.modify_eq_set_getElem?, hcall]
    rfl
  rw [State.writeCallback, hset]
  have hnot : call ∉ s.inFlight.erase call := hs.nodup.not_mem_erase
  refine inv_setCall hs hcall ?_ ?_ (hs.nodup.erase call) ?_
  · rw [decide_eq_false hnot]
    cases standing_of hs hcall (decide_eq_true hin) with
    | awaiting size => exact .scheduled size status
  · exact fun other hne => List.mem_erase_of_ne hne
  · intro hfreed
    rw [hs.freed hfreed]
    rfl

theorem inv_resume (hs : Inv s) (hcall : s.calls[call]? = some c) (hplace : c.place = .scheduled)
    (hwhole : c.taskSource = some (.ok ()) → c.size < 2 ^ 32) :
    Inv (s.setCall call c.resume) := by
  obtain ⟨hnot, hcompletions, status, hrequest, hsource⟩ := scheduled_of hs hcall hplace
  refine inv_set hs hcall hnot ?_
  rw [Call.resume, hsource]
  cases status with
  | none =>
      refine standing_finish hcompletions (iff_of_true rfl ?_)
      rw [hrequest, ulong, Nat.mod_eq_of_lt (hwhole hsource)]
  | some code =>
      refine standing_finish hcompletions (iff_of_false (fun h => by cases h) fun h => ?_)
      cases congrArg (fun r => r.map Request.status) (hrequest.symm.trans h)

/-- The calls are as they were, and the handle is closed. -/
theorem inv_reset {uvIsWritable uvIsActive : Bool} {result : Option E} (hs : Inv s) :
    Inv (s.reset uvIsWritable uvIsActive result) := by
  unfold State.reset
  split
  next =>
    refine { hs with opened := fun h => (by cases h), freed := fun h => ?_ }
    dsimp only [closeAndFreeUvHandle] at h
    split at h
    · split at h <;> cases h
    · cases h
  next => exact hs

theorem inv_step (hs : Inv s) (hwhole : Whole s a) (h : step s a = some s') : Inv s' := by
  cases a with
  | callWrite size =>
      obtain rfl := Option.some.inj h
      exact inv_callWrite hs
  | write call uvIsWritable result =>
      simp only [step] at h
      simp only [Whole] at hwhole
      split at h
      next c hcall =>
        split at h
        next hplace =>
          obtain rfl := Option.some.inj h
          rw [hcall] at hwhole
          exact inv_write hs hcall hplace (hwhole hplace)
        next => cases h
      next => cases h
  | writeCallback call status =>
      simp only [step] at h
      split at h
      next hin =>
        obtain rfl := Option.some.inj h
        exact inv_writeCallback hs hin.1
      next => cases h
  | resume call =>
      simp only [step] at h
      simp only [Whole] at hwhole
      split at h
      next c hcall =>
        split at h
        next hplace =>
          obtain rfl := Option.some.inj h
          rw [hcall] at hwhole
          exact inv_resume hs hcall hplace (hwhole hplace)
        next => cases h
      next => cases h
  | dispose =>
      obtain rfl := Option.some.inj h
      unfold State.dispose
      split
      next => exact hs
      next => exact { hs with }
  | closeStream uvIsWritable uvIsActive result =>
      simp only [step] at h
      split at h
      next =>
        obtain rfl := Option.some.inj h
        exact inv_reset { hs with }
      next => cases h
  | readFailed uvIsWritable uvIsActive result =>
      simp only [step] at h
      split at h
      next =>
        obtain rfl := Option.some.inj h
        exact inv_reset hs
      next => cases h
  | shutdownCallback =>
      simp only [step] at h
      split at h
      next hshutdown =>
        obtain rfl := Option.some.inj h
        refine { hs with opened := fun hstream => ?_, freed := fun h => (by cases h) }
        cases (hs.opened hstream).symm.trans hshutdown.1
      next => cases h
  | closeCallback =>
      simp only [step] at h
      split at h
      next hclosing =>
        obtain rfl := Option.some.inj h
        refine { hs with opened := fun hstream => ?_, freed := fun _ => hclosing.2 }
        cases (hs.opened hstream).symm.trans hclosing.1
      next => cases h

/-- What a sound step has met. -/
theorem whole_of_keeps (hs : Inv s) (h : Keeps s a) : Whole s a := by
  cases a with
  | write call uvIsWritable result =>
      simp only [Whole]
      split
      next c hcall =>
        intro hplace hstream hwritable
        obtain ⟨-, hc⟩ := switching_of hs hcall hplace
        cases result with
        | none => rfl
        | some code =>
            -- the task has no error, and nothing has been accepted
            have hstep : step s (.write call uvIsWritable (some code)) =
                some (s.setCall call (c.finish (.ok ()))) := by
              simp [step, hcall, hplace, State.write, hstream, hwritable]
            have hmem : c.finish (.ok ()) ∈ (s.setCall call (c.finish (.ok ()))).calls :=
              List.mem_of_getElem? (getElem?_replaced hcall _)
            have hsuccess := ((h _ hstep).success _ hmem (.ok ())
              (List.mem_append_right _ (List.mem_singleton_self _))).1 rfl
            rw [hc] at hsuccess
            cases hsuccess
      next => trivial
  | resume call =>
      simp only [Whole]
      split
      next c hcall =>
        intro hplace hok
        obtain ⟨-, -, status, hrequest, -⟩ := scheduled_of hs hcall hplace
        have hresume : c.resume = c.finish (.ok ()) := by
          unfold Call.resume
          rw [hok]
        have hstep : step s (.resume call) = some (s.setCall call (c.finish (.ok ()))) := by
          simp [step, hcall, hplace, hresume]
        have hmem : c.finish (.ok ()) ∈ (s.setCall call (c.finish (.ok ()))).calls :=
          List.mem_of_getElem? (getElem?_replaced hcall _)
        have hsuccess := ((h _ hstep).success _ hmem (.ok ())
          (List.mem_append_right _ (List.mem_singleton_self _))).1 rfl
        have hlength : ulong c.size = c.size :=
          congrArg Request.length (Option.some.inj (hrequest.symm.trans hsuccess))
        rw [← hlength]
        exact Nat.mod_lt _ (by decide)
      next => trivial
  | callWrite | writeCallback | dispose | closeStream | readFailed | shutdownCallback |
    closeCallback => trivial

/-- **Every write task is completed once, with what has become of the write**, and its request and
its buffer are there as long as libuv refers to them, at every step of a run, if and only if at
every step `uv_write` accepts what it is called with, and no buffer is said to be written that does
not fit into a `ULONG`. -/
theorem writes_iff (actions : List (Action E)) :
    Allowed step Keeps {} actions ↔ Allowed step Whole {} actions := by
  refine allowed_congr (P := Inv) ?_ ?_ actions ?_ (allowed_free actions _)
  · intro s a s' hs _ hkeeps h
    exact inv_step hs (whole_of_keeps hs hkeeps) h
  · intro s a hs _
    refine ⟨whole_of_keeps hs, fun hwhole s' h => ?_⟩
    exact sound_of_inv (inv_step hs hwhole h)
  · exact {
      standing := fun call c h => by cases h
      nodup := List.nodup_nil
      there := fun call h => by cases h
      opened := fun _ => rfl
      freed := fun _ => rfl }

/-- How often a call is served from a place on. -/
def Place.left : Place → ℕ
  | .switching => 3
  | .awaiting  => 2
  | .scheduled => 1
  | .destroyed => 0

/-- What serves a call brings it nearer to its end. -/
theorem left_lt (hs : Inv s) (hcall : s.calls[call]? = some c) (ha : Serves call a)
    (h : step s a = some s') :
    ∃ c', s'.calls[call]? = some c' ∧ c'.place.left < c.place.left := by
  cases ha with
  | write uvIsWritable result =>
      simp only [step, hcall] at h
      split at h
      next hplace =>
        obtain rfl := Option.some.inj h
        rw [hplace]
        unfold State.write
        split
        next => exact ⟨_, getElem?_replaced hcall _, Nat.succ_pos 2⟩
        next =>
          split
          next => exact ⟨_, getElem?_replaced hcall _, Nat.succ_pos 2⟩
          next => exact ⟨_, getElem?_replaced hcall _, Nat.lt_succ_self 2⟩
      next => cases h
  | writeCallback status =>
      simp only [step] at h
      split at h
      next hin =>
        obtain rfl := Option.some.inj h
        refine ⟨c.writeCallback status, by simp [State.writeCallback, hcall], ?_⟩
        cases standing_of hs hcall (decide_eq_true hin.1) with
        | awaiting size => exact Nat.lt_succ_self 1
      next => cases h
  | resume =>
      simp only [step, hcall] at h
      split at h
      next hplace =>
        obtain rfl := Option.some.inj h
        refine ⟨c.resume, getElem?_replaced hcall _, ?_⟩
        rw [hplace]
        unfold Call.resume
        split <;> exact Nat.lt_succ_self 0
      next => cases h

/-- `uv_write` refuses a byte, and the task has no error. -/
theorem not_written : ¬ Allowed step Keeps ({} : State ℕ)
    [.callWrite 1, .write 0 true (some 1)] := by
  intro h
  obtain ⟨-, h⟩ := h
  obtain ⟨h, -⟩ := h _ rfl
  have hsuccess := ((h _ rfl).success _ (List.mem_singleton_self _) (.ok ())
    (List.mem_singleton_self _)).1 rfl
  cases hsuccess

end MyEngine.Network.Writing
