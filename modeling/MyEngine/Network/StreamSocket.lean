import Mathlib.Data.List.Basic
import MyEngine.Support.Replace
import MyEngine.Support.Runs

/-!
# Network — StreamSocket

`stream_socket.cpp`: the calls of `read` and `write`, the callbacks of libuv and the closing.  All
but the start of a call runs on the runtime thread, up to where it suspends, in one step.

* `step`: a call, its part on the runtime thread, the return of a read that has waited, a callback.
* `Read`, `Stepped`: what a read and a step can do.
* `Stuck`: a read waits for callbacks that nobody has started.
* `never_stuck_iff`: when exactly no run comes there.
-/

namespace MyEngine.Network.Streaming

open MyEngine.Runs

-- the bytes, and the errors of libuv
variable {B E : Type}

/-! ### Buffers -/

/-- `Buffer`s are nothing, or have some bytes. -/
@[simp]
def bytes (buffer : Option (List B)) : List B := buffer.getD []

def resize [Inhabited B] (buffer : Option (List B)) (size : ℕ) : Option (List B) :=
  some ((bytes buffer).take size ++ List.replicate (size - (bytes buffer).length) default)

/-! ### The socket -/

inductive ReadError (E : Type) where
  | disposed
  | notReadable
  | alreadyInProgress
  | uv (code : E)
  deriving DecidableEq, Repr

/-- Where a call of `read` is.  One that waits keeps how many bytes have come before. -/
inductive ReadCall (B E : Type) where
  | switching
  | waiting (since : ℕ)
  | resolved (since : ℕ)
  | returned (result : Except (ReadError E) (Option (List B)))

inductive WriteError (E : Type) where
  | disposed
  | notWritable
  | uv (code : E)
  deriving DecidableEq, Repr

inductive WriteCall (E : Type) where
  | switching
  | writing
  | returned (result : Except (WriteError E) Unit)

/-- The write request is in progress. -/
def WriteCall.isWriting : WriteCall E → Bool
  | .writing => true
  | _        => false

/-- The members, whether libuv reads, the calls, and all bytes libuv has delivered.  A task source
is known by the call that awaits it. -/
structure StreamSocket (B E : Type) where
  stream : Bool := true
  isDisposed : Bool := false
  closing : Bool := false
  readTaskSource : Option ℕ := none
  readBuffer : Option (List B) := none
  pendingBuffer : Option (List B) := none
  reading : Bool := false
  reads : List (ReadCall B E) := []
  writes : List (WriteCall E) := []
  delivered : List B := []

def maxReadBufferSize : ℕ := 1600

namespace StreamSocket

def setRead (s : StreamSocket B E) (call : ℕ) (read : ReadCall B E) : StreamSocket B E :=
  { s with reads := s.reads.set call read }

def setWrite (s : StreamSocket B E) (call : ℕ) (write : WriteCall E) : StreamSocket B E :=
  { s with writes := s.writes.set call write }

/-- libuv documents that writing makes a stream active as well. -/
def uvIsActive (s : StreamSocket B E) : Bool := s.reading || s.writes.any WriteCall.isWriting

/-- The continuation of the call that awaits the task is scheduled. -/
def resolve (s : StreamSocket B E) (call : ℕ) : StreamSocket B E :=
  match s.reads[call]? with
  | some (.waiting since) => s.setRead call (.resolved since)
  | _                     => s

def notifyReadAwaiter (s : StreamSocket B E) : StreamSocket B E :=
  match s.readTaskSource with
  | some call => { s with readTaskSource := none }.resolve call
  | none      => s

/-- With the result of `uv_read_start`. -/
def readStart (s : StreamSocket B E) (result : Option E) : Except E (StreamSocket B E) :=
  if s.uvIsActive then .ok s
  else
    match result with
    | some code => .error code
    | none      => .ok { s with reading := true }

/-- `read` on the thread of its caller. -/
def callRead (s : StreamSocket B E) : StreamSocket B E :=
  { s with reads := s.reads ++
      [if s.isDisposed then .returned (.error .disposed) else .switching] }

/-- `read` on the runtime thread, to its return or to its suspension. -/
def read (s : StreamSocket B E) (call : ℕ) (startResult : Option E) : StreamSocket B E :=
  if bytes s.pendingBuffer ≠ [] then
    { s with pendingBuffer := none }.setRead call (.returned (.ok s.pendingBuffer))
  else if !s.stream then s.setRead call (.returned (.error .notReadable))
  else if s.readTaskSource.isSome then s.setRead call (.returned (.error .alreadyInProgress))
  else
    match if s.uvIsActive then .ok s else s.readStart startResult with
    | .error code => s.setRead call (.returned (.error (.uv code)))
    | .ok s       =>
        if bytes s.pendingBuffer = [] then
          { s with readTaskSource := some call }.setRead call (.waiting s.delivered.length)
        else { s with pendingBuffer := none }.setRead call (.returned (.ok s.pendingBuffer))

/-- A read that has waited returns. -/
def resume (s : StreamSocket B E) (call : ℕ) : StreamSocket B E :=
  { s with pendingBuffer := none }.setRead call (.returned (.ok s.pendingBuffer))

def allocateCallback [Inhabited B] (s : StreamSocket B E) (requestSize : ℕ) : StreamSocket B E :=
  { s with readBuffer := resize s.readBuffer (min maxReadBufferSize requestSize) }

/-- libuv puts what has come at the front of the buffer it has got. -/
def fill (s : StreamSocket B E) (data : List B) : StreamSocket B E :=
  { s with
    readBuffer := some (data ++ (bytes s.readBuffer).drop data.length)
    delivered := s.delivered ++ data }

/-- The read callback, with `nread` not negative. -/
def readCallback [Inhabited B] (s : StreamSocket B E) (nread : ℕ) : StreamSocket B E :=
  notifyReadAwaiter <|
    match s.pendingBuffer with
    | none         => { s with pendingBuffer := resize s.readBuffer nread, readBuffer := none }
    | some pending => { s with
        pendingBuffer := some (pending ++ (bytes s.readBuffer).take nread) }

/-- The read callback, with the end of file or with an error; libuv does not read any more. -/
def readFailed (s : StreamSocket B E) : StreamSocket B E :=
  { s with reading := false, stream := false }.notifyReadAwaiter

def callWrite (s : StreamSocket B E) : StreamSocket B E :=
  { s with writes := s.writes ++
      [if s.isDisposed then .returned (.error .disposed) else .switching] }

/-- `write` on the runtime thread.  It returns with no error where `uv_write` has one. -/
def write (s : StreamSocket B E) (call : ℕ) (uvIsWritable : Bool) (result : Option E) :
    StreamSocket B E :=
  if !s.stream || !uvIsWritable then s.setWrite call (.returned (.error .notWritable))
  else
    match result with
    | some _ => s.setWrite call (.returned (.ok ()))
    | none   => s.setWrite call .writing

def writeCallback (s : StreamSocket B E) (call : ℕ) (status : Option E) : StreamSocket B E :=
  s.setWrite call <| .returned <|
    match status with
    | some code => .error (.uv code)
    | none      => .ok ()

/-- `doDispose`, to the callback on the runtime thread. -/
def dispose (s : StreamSocket B E) : StreamSocket B E :=
  if s.isDisposed then s else { s with isDisposed := true, closing := true }

/-- The callback of `closeStream`. -/
def closeStream (s : StreamSocket B E) : StreamSocket B E :=
  { s with
    closing := false
    reading := if s.stream && s.uvIsActive then false else s.reading
    stream := false }.notifyReadAwaiter

end StreamSocket

inductive Action (B E : Type) where
  | callRead
  | read (call : ℕ) (startResult : Option E)
  | resume (call : ℕ)
  | received (requestSize : ℕ) (data : List B)
  | readFailed
  | callWrite
  | write (call : ℕ) (uvIsWritable : Bool) (result : Option E)
  | writeCallback (call : ℕ) (status : Option E)
  | dispose
  | closeStream

/-- libuv calls a read callback only for an open stream that reads. -/
def step [Inhabited B] (s : StreamSocket B E) : Action B E → Option (StreamSocket B E)
  | .callRead                         => some s.callRead
  | .read call startResult            =>
      match s.reads[call]? with
      | some .switching => some (s.read call startResult)
      | _               => none
  | .resume call                      =>
      match s.reads[call]? with
      | some (.resolved _) => some (s.resume call)
      | _                  => none
  | .received requestSize data        =>
      if s.stream ∧ s.reading ∧ data.length ≤ min maxReadBufferSize requestSize then
        some (((s.allocateCallback requestSize).fill data).readCallback data.length)
      else none
  | .readFailed                       =>
      if s.stream ∧ s.reading then some s.readFailed else none
  | .callWrite                        => some s.callWrite
  | .write call uvIsWritable result   =>
      match s.writes[call]? with
      | some .switching => some (s.write call uvIsWritable result)
      | _               => none
  | .writeCallback call status        =>
      match s.writes[call]? with
      | some .writing => some (s.writeCallback call status)
      | _             => none
  | .dispose                          => some s.dispose
  | .closeStream                      => if s.closing then some s.closeStream else none

/-! ### What the operations change -/

section Fields

variable {s : StreamSocket B E} {call : ℕ}

@[simp]
theorem resolve_stream : (s.resolve call).stream = s.stream := by
  unfold StreamSocket.resolve; split <;> rfl

@[simp]
theorem resolve_reading : (s.resolve call).reading = s.reading := by
  unfold StreamSocket.resolve; split <;> rfl

@[simp]
theorem resolve_readTaskSource : (s.resolve call).readTaskSource = s.readTaskSource := by
  unfold StreamSocket.resolve; split <;> rfl

@[simp]
theorem notifyReadAwaiter_stream : s.notifyReadAwaiter.stream = s.stream := by
  unfold StreamSocket.notifyReadAwaiter; split <;> simp

@[simp]
theorem notifyReadAwaiter_reading : s.notifyReadAwaiter.reading = s.reading := by
  unfold StreamSocket.notifyReadAwaiter; split <;> simp

/-- Nobody waits behind a notification. -/
@[simp]
theorem notifyReadAwaiter_readTaskSource : s.notifyReadAwaiter.readTaskSource = none := by
  unfold StreamSocket.notifyReadAwaiter
  split
  next => simp
  next h => exact h

end Fields

/-! ### What the steps do -/

/-- What `read` does on the runtime thread, one constructor for each way to its return or to its
suspension. -/
inductive Read (s : StreamSocket B E) (call : ℕ) : StreamSocket B E → Prop where
  | pending (hpending : bytes s.pendingBuffer ≠ []) :
      Read s call ({ s with pendingBuffer := none }.setRead call (.returned (.ok s.pendingBuffer)))
  | notReadable (hstream : s.stream = false) :
      Read s call (s.setRead call (.returned (.error .notReadable)))
  | alreadyInProgress (hsource : s.readTaskSource ≠ none) :
      Read s call (s.setRead call (.returned (.error .alreadyInProgress)))
  | failed (hsource : s.readTaskSource = none) (hactive : s.uvIsActive = false) (code : E) :
      Read s call (s.setRead call (.returned (.error (.uv code))))
  | waits (hsource : s.readTaskSource = none) (hpending : bytes s.pendingBuffer = [])
      (hactive : s.uvIsActive = true) :
      Read s call
        ({ s with readTaskSource := some call }.setRead call (.waiting s.delivered.length))
  | starts (hsource : s.readTaskSource = none) (hpending : bytes s.pendingBuffer = [])
      (hactive : s.uvIsActive = false) :
      Read s call ({ s with
        reading := true
        readTaskSource := some call }.setRead call (.waiting s.delivered.length))

theorem read_of_read (s : StreamSocket B E) (call : ℕ) (startResult : Option E) :
    Read s call (s.read call startResult) := by
  unfold StreamSocket.read StreamSocket.readStart
  split
  next hpending => exact .pending hpending
  next hpending =>
    have hpending := not_not.1 hpending
    split
    next hstream => exact .notReadable (by simpa using hstream)
    next =>
      split
      next hsource => exact .alreadyInProgress (Option.isSome_iff_ne_none.1 hsource)
      next hnone =>
        have hsource : s.readTaskSource = none := by simpa using hnone
        cases hactive : s.uvIsActive with
        | true =>
            rw [if_pos rfl]
            dsimp only
            rw [if_pos hpending]
            exact .waits hsource hpending hactive
        | false =>
            cases startResult with
            | some code => exact .failed hsource hactive code
            | none =>
                simp only [Bool.false_eq_true, if_false]
                rw [if_pos hpending]
                exact .starts hsource hpending hactive

/-- `write` only moves its own call. -/
theorem exists_write (s : StreamSocket B E) (call : ℕ) (uvIsWritable : Bool) (result : Option E) :
    ∃ new, s.write call uvIsWritable result = s.setWrite call new := by
  unfold StreamSocket.write
  split
  next => exact ⟨_, rfl⟩
  next => split <;> exact ⟨_, rfl⟩

/-- What a step can do. -/
inductive Stepped [Inhabited B] (s : StreamSocket B E) :
    Action B E → StreamSocket B E → Prop where
  | callRead : Stepped s .callRead s.callRead
  | read {call : ℕ} {startResult : Option E} {s' : StreamSocket B E}
      (hcall : s.reads[call]? = some .switching) (hread : Read s call s') :
      Stepped s (.read call startResult) s'
  | resume {call since : ℕ} (hcall : s.reads[call]? = some (.resolved since)) :
      Stepped s (.resume call) (s.resume call)
  | received {requestSize : ℕ} {data : List B} (hreading : s.reading = true) :
      Stepped s (.received requestSize data)
        (((s.allocateCallback requestSize).fill data).readCallback data.length)
  | readFailed (hreading : s.reading = true) : Stepped s .readFailed s.readFailed
  | callWrite : Stepped s .callWrite s.callWrite
  | write {call : ℕ} {uvIsWritable : Bool} {result : Option E} (new : WriteCall E) :
      Stepped s (.write call uvIsWritable result) (s.setWrite call new)
  | writeCallback {call : ℕ} {status : Option E} (new : WriteCall E) :
      Stepped s (.writeCallback call status) (s.setWrite call new)
  | disposeAgain : Stepped s .dispose s
  | dispose : Stepped s .dispose { s with isDisposed := true, closing := true }
  | closeStream : Stepped s .closeStream s.closeStream

theorem stepped_of_step [Inhabited B] {s s' : StreamSocket B E} {a : Action B E}
    (h : step s a = some s') : Stepped s a s' := by
  cases a with
  | callRead =>
      obtain rfl := Option.some.inj h
      exact .callRead
  | read call startResult =>
      simp only [step] at h
      split at h
      next hcall =>
        obtain rfl := Option.some.inj h
        exact .read hcall (read_of_read s call startResult)
      next => cases h
  | resume call =>
      simp only [step] at h
      split at h
      next hcall =>
        obtain rfl := Option.some.inj h
        exact .resume hcall
      next => cases h
  | received requestSize data =>
      simp only [step] at h
      split at h
      next hopen =>
        obtain rfl := Option.some.inj h
        exact .received hopen.2.1
      next => cases h
  | readFailed =>
      simp only [step] at h
      split at h
      next hopen =>
        obtain rfl := Option.some.inj h
        exact .readFailed hopen.2
      next => cases h
  | callWrite =>
      obtain rfl := Option.some.inj h
      exact .callWrite
  | write call uvIsWritable result =>
      simp only [step] at h
      split at h
      next =>
        obtain rfl := Option.some.inj h
        obtain ⟨new, hnew⟩ := exists_write s call uvIsWritable result
        rw [hnew]
        exact .write new
      next => cases h
  | writeCallback call status =>
      simp only [step] at h
      split at h
      next =>
        obtain rfl := Option.some.inj h
        exact .writeCallback _
      next => cases h
  | dispose =>
      obtain rfl := Option.some.inj h
      unfold StreamSocket.dispose
      split
      next => exact .disposeAgain
      next => exact .dispose
  | closeStream =>
      simp only [step] at h
      split at h
      next =>
        obtain rfl := Option.some.inj h
        exact .closeStream
      next => cases h

/-! ### Reads that wait for nothing -/

section Stuck

variable [Inhabited B] {s s' : StreamSocket B E} {a : Action B E} {call : ℕ}

/-- A read waits on an open stream that libuv does not read. -/
def Stuck (s : StreamSocket B E) : Prop :=
  s.readTaskSource ≠ none ∧ s.stream = true ∧ s.reading = false

/-- A write is in flight on an open stream, and reading has not been started. -/
def Unstarted (s : StreamSocket B E) : Prop :=
  s.stream = true ∧ s.reading = false ∧ s.writes.any WriteCall.isWriting = true

/-- What is pending has come from reading. -/
def Inv (s : StreamSocket B E) : Prop :=
  s.stream = true → s.reading = false → s.pendingBuffer = none

/-- No read comes to the runtime thread in such a state. -/
def NotUnstarted (s : StreamSocket B E) : Action B E → Prop
  | .read call _ =>
      match s.reads[call]? with
      | some .switching => ¬ Unstarted s
      | _               => True
  | _            => True

omit [Inhabited B] in
theorem inv_read (hs : Inv s) (h : Read s call s') : Inv s' := by
  cases h with
  | pending => exact fun _ _ => rfl
  | notReadable | alreadyInProgress | failed | waits => exact hs
  | starts => exact fun _ hreading => by cases hreading

theorem inv_step (hs : Inv s) (h : Stepped s a s') : Inv s' := by
  cases h with
  | callRead | callWrite | write | writeCallback | disposeAgain | dispose => exact hs
  | read hcall hread => exact inv_read hs hread
  | resume => exact fun _ _ => rfl
  | received hopen =>
      -- libuv reads
      intro _ hreading
      unfold StreamSocket.readCallback at hreading
      rw [notifyReadAwaiter_reading] at hreading
      split at hreading <;> cases hopen.symm.trans hreading
  | readFailed =>
      intro hstream
      rw [StreamSocket.readFailed, notifyReadAwaiter_stream] at hstream
      cases hstream
  | closeStream =>
      intro hstream
      rw [StreamSocket.closeStream, notifyReadAwaiter_stream] at hstream
      cases hstream

omit [Inhabited B] in
/-- What a read on the runtime thread comes to. -/
theorem stuck_read (hs : Inv s) (hnot : ¬ Stuck s) (h : Read s call s') :
    Stuck s' ↔ Unstarted s := by
  cases h with
  | pending hpending =>
      refine iff_of_false hnot ?_
      rintro ⟨hstream, hreading, -⟩
      exact hpending (by rw [hs hstream hreading]; rfl)
  | notReadable hclosed =>
      refine iff_of_false hnot ?_
      rintro ⟨hstream, -, -⟩
      cases hclosed.symm.trans hstream
  | alreadyInProgress hsource =>
      refine iff_of_false hnot ?_
      rintro ⟨hstream, hreading, -⟩
      exact hnot ⟨hsource, hstream, hreading⟩
  | failed hsource hactive =>
      refine iff_of_false hnot ?_
      rintro ⟨-, -, hwriting⟩
      cases (Bool.or_eq_false_iff.1 hactive).2.symm.trans hwriting
  | waits hsource hpending hactive =>
      -- the read waits, whatever makes the stream active
      have hwriting : s.reading = false → s.writes.any WriteCall.isWriting = true := by
        intro hreading
        rwa [StreamSocket.uvIsActive, hreading, Bool.false_or] at hactive
      constructor
      · rintro ⟨-, hstream, hreading⟩
        exact ⟨hstream, hreading, hwriting hreading⟩
      · rintro ⟨hstream, hreading, -⟩
        exact ⟨by simp [StreamSocket.setRead], hstream, hreading⟩
  | starts hsource hpending hactive =>
      refine iff_of_false ?_ ?_
      · rintro ⟨-, -, hreading⟩
        cases hreading
      · rintro ⟨-, -, hwriting⟩
        cases (Bool.or_eq_false_iff.1 hactive).2.symm.trans hwriting

theorem stuck_step (hs : Inv s) (hnot : ¬ Stuck s) (h : Stepped s a s') :
    ¬ Stuck s' ↔ NotUnstarted s a := by
  cases h with
  | callRead | resume | callWrite | write | writeCallback | disposeAgain | dispose =>
      exact iff_of_true hnot trivial
  | read hcall hread =>
      simp only [NotUnstarted, hcall]
      exact not_congr (stuck_read hs hnot hread)
  | received | readFailed | closeStream =>
      exact iff_of_true (fun hstuck => hstuck.1 notifyReadAwaiter_readTaskSource) trivial

/-- No step of the run comes to such a read. -/
def NeverStuck (s : StreamSocket B E) (a : Action B E) : Prop :=
  ∀ s', step s a = some s' → ¬ Stuck s'

theorem neverStuck_iff (hs : Inv s) (hnot : ¬ Stuck s) (a : Action B E) :
    NeverStuck s a ↔ NotUnstarted s a := by
  cases h : step s a with
  | none =>
      refine iff_of_true (fun s' hs' => by cases h.symm.trans hs') ?_
      cases a with
      | read call startResult =>
          simp only [step] at h
          simp only [NotUnstarted]
          split at h
          · cases h
          · trivial
      | callRead | callWrite | resume | received | readFailed | write | writeCallback | dispose |
        closeStream => trivial
  | some s₁ =>
      rw [← stuck_step hs hnot (stepped_of_step h)]
      refine ⟨fun hnever => hnever s₁ h, fun hnot₁ s' hs' => ?_⟩
      obtain rfl := Option.some.inj (h.symm.trans hs')
      exact hnot₁

/-- A read that is stuck stays so until the socket is closed. -/
theorem stuck_of_step (hs : Inv s) (hstuck : Stuck s) (h : step s a = some s')
    (hnotClosed : a ≠ .closeStream) : Stuck s' := by
  obtain ⟨hsource, hstream, hreading⟩ := hstuck
  cases stepped_of_step h with
  | callRead | callWrite | resume | write | writeCallback | disposeAgain | dispose =>
      exact ⟨hsource, hstream, hreading⟩
  | read hcall hread =>
      cases hread with
      | pending hpending => exact absurd (by rw [hs hstream hreading]; rfl) hpending
      | notReadable | alreadyInProgress => exact ⟨hsource, hstream, hreading⟩
      | failed hnone | waits hnone | starts hnone => exact absurd hnone hsource
  | received hopen | readFailed hopen => cases hreading.symm.trans hopen
  | closeStream => exact absurd rfl hnotClosed

end Stuck

/-- **No read waits for callbacks that nobody has started**, if and only if none comes to the
runtime thread with a write in flight before one has started them. -/
theorem never_stuck_iff [Inhabited B] (actions : List (Action B E)) :
    Allowed step NeverStuck {} actions ↔ Allowed step NotUnstarted {} actions := by
  refine allowed_congr (P := fun s => Inv s ∧ ¬ Stuck s) ?_
    (fun a h _ => neverStuck_iff h.1 h.2 a) actions ⟨fun _ _ => rfl, fun h => h.1 rfl⟩
    (allowed_free actions _)
  rintro s a s' ⟨hs, -⟩ - hnever h
  exact ⟨inv_step hs (stepped_of_step h), hnever s' h⟩

/-- A socket writes, and is read before the write has come to its end. -/
theorem stuck_behind_write : ¬ Allowed step NeverStuck ({} : StreamSocket ℕ ℕ)
    [.callWrite, .write 0 true none, .callRead, .read 0 none] := by
  intro h
  obtain ⟨-, h⟩ := h
  obtain ⟨-, h⟩ := h _ rfl
  obtain ⟨-, h⟩ := h _ rfl
  obtain ⟨h, -⟩ := h _ rfl
  exact h _ rfl ⟨fun hnone => (by cases hnone), rfl, rfl⟩

end MyEngine.Network.Streaming
