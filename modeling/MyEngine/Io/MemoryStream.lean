import Mathlib.Algebra.Ring.Int.Defs
import MyEngine.Memory.BufferBytes

/-!
# Io — MemoryStream

`memory_stream.cpp`: a stream over a `Buffer` that grows with what is written.

* `Contents`: what a stream is, its bytes and a position among them, with the steps it takes.
* `step_spec`: one operation of `MemoryStreamImpl` does what the contents do.
* `run_refines`: all of them do, as long as the bytes are fewer than 2 ^ 32.
-/

namespace MyEngine.Io

open Memory Support

/-! ### `MemoryStreamImpl` -/

inductive OffsetOrigin where
  | current
  | begin
  | end
  deriving DecidableEq, Repr

/-- A sum of `int64_t`; where it overflows, it wraps around. -/
def addInt64 (a b : ℤ) : ℤ := Int.bmod (a + b) (2 ^ 64)

/-- The position `setPosition` goes to in a stream of `size` bytes that is at `pos`. -/
def newPosition (size pos : ℕ) (origin : OffsetOrigin) (offset : ℤ) : ℤ :=
  let newPos : ℤ :=
    match origin with
    | .begin   => offset
    | .current => addInt64 pos offset
    | .end     => addInt64 size offset
  if newPos < 0 then 0 else if size < newPos then size else newPos

variable {B : Type*}

structure MemoryStreamImpl (B : Type*) where
  buffer : Buffer B := {}
  pos : ℕ := 0
  deriving DecidableEq, Repr

namespace MemoryStreamImpl

/-- The constructor from a buffer; one from nothing is that of an empty buffer. -/
def ofBuffer (buffer : Buffer B) : MemoryStreamImpl B := ⟨buffer, buffer.size⟩

/-- `read`: the count, the bytes and the stream. -/
def read (s : MemoryStreamImpl B) (count : ℕ) :
    Except BytesFault (ℕ × List B × MemoryStreamImpl B) :=
  if s.pos ≤ s.buffer.size then
    let availableSize := s.buffer.size - s.pos
    let actualReadCount := min availableSize count
    if actualReadCount = 0 then .ok (0, [], s)
    else
      match s.buffer.memcpyFrom s.pos actualReadCount with
      | .error e  => .error e
      | .ok bytes => .ok (actualReadCount, bytes, { s with pos := s.pos + actualReadCount })
  else .error .fatal

/-- `write`; `junk` is what a new storage holds. -/
def write (junk : ℕ → B) (s : MemoryStreamImpl B) (bytes : List B) :
    Except BytesFault (ℕ × MemoryStreamImpl B) :=
  if s.pos ≤ s.buffer.size then
    let availableSize := s.buffer.size - s.pos
    let grown :=
      if availableSize < bytes.length then
        (s.buffer.append junk (bytes.length - availableSize)).map Prod.fst
      else .ok s.buffer
    match grown with
    | .error e   => .error e
    | .ok buffer =>
        match buffer.memcpyTo s.pos bytes with
        | .error e   => .error e
        | .ok buffer => .ok (bytes.length, ⟨buffer, s.pos + bytes.length⟩)
  else .error .fatal

/-- `setPosition`.  Its last checks hold by the cases before. -/
def setPosition (s : MemoryStreamImpl B) (origin : OffsetOrigin) (offset : ℤ) :
    Except BytesFault (ℕ × MemoryStreamImpl B) :=
  let newPos := newPosition s.buffer.size s.pos origin offset
  if 0 ≤ newPos ∧ newPos ≤ s.buffer.size then .ok (newPos.toNat, { s with pos := newPos.toNat })
  else .error .fatal

/-- `releaseBuffer`: the buffer is moved out. -/
def releaseBuffer (s : MemoryStreamImpl B) : Buffer B × MemoryStreamImpl B := (s.buffer, {})

end MemoryStreamImpl

/-! ### Sessions -/

inductive Op (B : Type*) where
  | read (count : ℕ)
  | write (bytes : List B)
  | setPosition (origin : OffsetOrigin) (offset : ℤ)
  | releaseBuffer
  deriving DecidableEq, Repr

/-- What a caller sees of an operation. -/
inductive Output (B : Type*) where
  | read (count : ℕ) (bytes : List B)
  | written (count : ℕ)
  | position (pos : ℕ)
  | released (bytes : List B)
  deriving DecidableEq, Repr

/-- An operation, and what a storage holds that is made for it. -/
abbrev Call (B : Type*) := Op B × (ℕ → B)

/-- One call; of a released buffer all bytes are read. -/
def MemoryStreamImpl.step (s : MemoryStreamImpl B) :
    Call B → Except BytesFault (Output B × MemoryStreamImpl B)
  | (.read count, _)                => (s.read count).map fun r => (.read r.1 r.2.1, r.2.2)
  | (.write bytes, junk)            => (s.write junk bytes).map fun r => (.written r.1, r.2)
  | (.setPosition origin offset, _) =>
      (s.setPosition origin offset).map fun r => (.position r.1, r.2)
  | (.releaseBuffer, _)             =>
      (s.releaseBuffer.1.memcpyFrom 0 s.releaseBuffer.1.size).map fun bytes =>
        (.released bytes, s.releaseBuffer.2)

/-- A stream and what its calls have answered. -/
structure Session (B : Type*) where
  stream : MemoryStreamImpl B
  outputs : List (Output B) := []

namespace Session

def step (t : Session B) (call : Call B) : Option (Session B) :=
  match t.stream.step call with
  | .error _      => none
  | .ok (out, s) => some ⟨s, t.outputs ++ [out]⟩

/-- After the call the stream is smaller than 4 GiB. -/
def Below (t : Session B) : Call B → Prop
  | (.write bytes, _) => t.stream.pos + bytes.length < 2 ^ 32
  | _                 => True

instance (t : Session B) : ∀ call, Decidable (t.Below call)
  | (.write _, _)         => inferInstanceAs (Decidable (_ < _))
  | (.read _, _)          => inferInstanceAs (Decidable True)
  | (.setPosition _ _, _) => inferInstanceAs (Decidable True)
  | (.releaseBuffer, _)   => inferInstanceAs (Decidable True)

end Session

/-! ### The bytes and a position -/

/-- A stream as its users see it. -/
structure Contents (B : Type*) where
  bytes : List B
  pos : ℕ
  pos_le : pos ≤ bytes.length

namespace Contents
variable (c : Contents B)

def remaining : ℕ := c.bytes.length - c.pos

def read (count : ℕ) : Contents B where
  bytes := c.bytes
  pos := c.pos + min c.remaining count
  pos_le := by
    have := c.pos_le
    rw [remaining]
    omega

def write (bytes : List B) : Contents B where
  bytes := overwrite c.bytes c.pos bytes
  pos := c.pos + bytes.length
  pos_le := by
    rw [length_overwrite c.pos_le]
    exact Nat.le_max_right _ _

def empty : Contents B := ⟨[], 0, Nat.le_refl 0⟩

def base : OffsetOrigin → ℤ
  | .begin   => 0
  | .current => c.pos
  | .end     => c.bytes.length

/-- Where a seek is to lead to. -/
def target (origin : OffsetOrigin) (offset : ℤ) : ℤ :=
  min c.bytes.length (max 0 (c.base origin + offset))

/-- What is asked of an operation.  A seek ends somewhere in the stream, and at its target if the
sum is an `int64_t`. -/
inductive Step : Contents B → Op B → Output B → Contents B → Prop where
  | read (c : Contents B) (count : ℕ) :
      Step c (.read count)
        (.read (min c.remaining count) ((c.bytes.drop c.pos).take count)) (c.read count)
  | write (c : Contents B) (bytes : List B) :
      Step c (.write bytes) (.written bytes.length) (c.write bytes)
  | setPosition (c : Contents B) (origin : OffsetOrigin) (offset : ℤ) (pos : ℕ)
      (h : pos ≤ c.bytes.length)
      (hexact : -2 ^ 63 ≤ c.base origin + offset → c.base origin + offset < 2 ^ 63 →
        pos = c.target origin offset) :
      Step c (.setPosition origin offset) (.position pos) ⟨c.bytes, pos, h⟩
  | releaseBuffer (c : Contents B) : Step c .releaseBuffer (.released c.bytes) empty

inductive Run : Contents B → List (Op B) → List (Output B) → Contents B → Prop where
  | nil (c : Contents B) : Run c [] [] c
  | cons {c c₁ c' : Contents B} {op : Op B} {out : Output B} {ops : List (Op B)}
      {outs : List (Output B)} (h : Step c op out c₁) (t : Run c₁ ops outs c') :
      Run c (op :: ops) (out :: outs) c'

end Contents

/-- **What a write does**: the bytes stand from the position on, all others are unchanged, and the
stream is longer only where they reach past its end. -/
theorem Contents.getElem?_write (c : Contents B) (bytes : List B) (i : ℕ) :
    (c.write bytes).bytes[i]? =
      if c.pos ≤ i ∧ i < c.pos + bytes.length then bytes[i - c.pos]? else c.bytes[i]? :=
  getElem?_overwrite c.pos_le i

theorem Contents.length_write (c : Contents B) (bytes : List B) :
    (c.write bytes).bytes.length = max c.bytes.length (c.pos + bytes.length) :=
  length_overwrite c.pos_le

/-! ### The steps -/

/-- The stream has these contents. -/
structure MemoryStreamImpl.Refines (s : MemoryStreamImpl B) (c : Contents B) : Prop where
  sound : s.buffer.Sound
  contents : s.buffer.contents = c.bytes
  pos : s.pos = c.pos

section Steps
variable {s : MemoryStreamImpl B} {c : Contents B}

theorem Refines.size (h : s.Refines c) : s.buffer.size = c.bytes.length := by
  rw [← h.contents, Buffer.length_contents h.sound]

theorem Refines.pos_le (h : s.Refines c) : s.pos ≤ s.buffer.size := by
  rw [Refines.size h, h.pos]
  exact c.pos_le

theorem read_spec (h : s.Refines c) (count : ℕ) :
    ∃ s', s.read count = .ok (min c.remaining count, (c.bytes.drop c.pos).take count, s') ∧
      s'.Refines (c.read count) := by
  have hsize := Refines.size h
  have hle := Refines.pos_le h
  have hremaining : s.buffer.size - s.pos = c.remaining := by rw [hsize, h.pos]; rfl
  have htake : (c.bytes.drop c.pos).take (min c.remaining count) =
      (c.bytes.drop c.pos).take count := by
    rw [Contents.remaining, ← List.length_drop, Nat.min_comm]
    exact List.take_eq_take_min.symm
  simp only [MemoryStreamImpl.read, hle, if_true, hremaining]
  by_cases hzero : min c.remaining count = 0
  · rw [← htake, hzero, if_pos rfl, List.take_zero]
    refine ⟨s, rfl, h.sound, h.contents, ?_⟩
    change s.pos = c.pos + min c.remaining count
    rw [hzero, h.pos, Nat.add_zero]
  · have hfrom : s.buffer.memcpyFrom s.pos (min c.remaining count) =
        .ok ((c.bytes.drop c.pos).take count) := by
      rw [Buffer.memcpyFrom_spec h.sound (by omega), h.contents, h.pos, htake]
    rw [if_neg hzero, hfrom]
    exact ⟨_, rfl, h.sound, h.contents, congrArg (· + _) h.pos⟩

theorem write_spec (junk : ℕ → B) {bytes : List B} (h : s.Refines c)
    (hbelow : s.pos + bytes.length < 2 ^ 32) :
    ∃ s', s.write junk bytes = .ok (bytes.length, s') ∧ s'.Refines (c.write bytes) := by
  have hsize := Refines.size h
  have hle := Refines.pos_le h
  have hcontents := Buffer.length_contents h.sound
  -- behind the position there is room enough, or the buffer grows by what is missing; what it
  -- grows by is written over at once
  obtain ⟨buffer, hgrown, hsound, hroom, hover⟩ : ∃ buffer : Buffer B,
      (if s.buffer.size - s.pos < bytes.length then
          (s.buffer.append junk (bytes.length - (s.buffer.size - s.pos))).map Prod.fst
        else .ok s.buffer) = .ok buffer ∧ buffer.Sound ∧
      s.pos + bytes.length ≤ buffer.size ∧
      overwrite buffer.contents s.pos bytes = overwrite s.buffer.contents s.pos bytes := by
    by_cases hgrow : s.buffer.size - s.pos < bytes.length
    · have hcount : s.buffer.size + (bytes.length - (s.buffer.size - s.pos)) < 2 ^ 32 := by omega
      obtain ⟨buffer, tail, happend, hsound, htail, hlen⟩ :=
        Buffer.append_spec junk h.sound hcount
      have hbuffer := Buffer.length_contents hsound
      rw [htail, List.length_append, hcontents, hlen] at hbuffer
      refine ⟨buffer, by rw [if_pos hgrow, happend]; rfl, hsound, by omega, ?_⟩
      rw [htail, overwrite_append (by omega) (by omega)]
    · exact ⟨s.buffer, if_neg hgrow, h.sound, by omega, rfl⟩
  obtain ⟨buffer', hto, hsound', hwritten⟩ := Buffer.memcpyTo_spec hsound hroom
  refine ⟨⟨buffer', s.pos + bytes.length⟩, ?_, hsound', ?_, congrArg (· + _) h.pos⟩
  · simp only [MemoryStreamImpl.write, hle, if_true, hgrown, hto]
  · rw [hwritten, hover, h.contents, h.pos]
    rfl

theorem addInt64_eq {a b : ℤ} (hlo : -2 ^ 63 ≤ a + b) (hhi : a + b < 2 ^ 63) :
    addInt64 a b = a + b :=
  Int.bmod_eq_of_le hlo hhi

/-- The cases of `setPosition`. -/
theorem clamp_eq (size : ℕ) (x : ℤ) :
    (if x < 0 then 0 else if (size : ℤ) < x then (size : ℤ) else x) = min ↑size (max 0 x) := by
  split
  · omega
  · split
    · omega
    · omega

/-- They keep the sum within the stream. -/
theorem newPosition_eq (c : Contents B) (origin : OffsetOrigin) (offset : ℤ) :
    ∃ x : ℤ, newPosition c.bytes.length c.pos origin offset = min ↑c.bytes.length (max 0 x) ∧
      (-2 ^ 63 ≤ c.base origin + offset → c.base origin + offset < 2 ^ 63 →
        x = c.base origin + offset) := by
  cases origin with
  | begin => exact ⟨offset, clamp_eq _ offset, fun _ _ => (Int.zero_add offset).symm⟩
  | current => exact ⟨_, clamp_eq _ (addInt64 c.pos offset), addInt64_eq⟩
  | «end» => exact ⟨_, clamp_eq _ (addInt64 c.bytes.length offset), addInt64_eq⟩

theorem setPosition_spec (h : s.Refines c) (origin : OffsetOrigin) (offset : ℤ) :
    ∃ pos s', s.setPosition origin offset = .ok (pos, s') ∧
      ∃ c', Contents.Step c (.setPosition origin offset) (.position pos) c' ∧ s'.Refines c' := by
  have hsize := Refines.size h
  obtain ⟨x, hposition, hexact⟩ := newPosition_eq c origin offset
  have hnonneg : 0 ≤ min (c.bytes.length : ℤ) (max 0 x) := by omega
  have hle : min (c.bytes.length : ℤ) (max 0 x) ≤ c.bytes.length := Int.min_le_left _ _
  have hnat := Int.toNat_of_nonneg hnonneg
  have hset : s.setPosition origin offset = .ok ((min (c.bytes.length : ℤ) (max 0 x)).toNat,
      { s with pos := (min (c.bytes.length : ℤ) (max 0 x)).toNat }) := by
    simp only [MemoryStreamImpl.setPosition, hsize, h.pos, hposition]
    rw [if_pos ⟨hnonneg, hle⟩]
  have hpos : (min (c.bytes.length : ℤ) (max 0 x)).toNat ≤ c.bytes.length := by omega
  refine ⟨_, _, hset, ⟨c.bytes, _, hpos⟩, .setPosition c origin offset _ hpos fun hlo hhi => ?_,
    ⟨h.sound, h.contents, rfl⟩⟩
  rw [hnat, hexact hlo hhi, Contents.target]

/-- **One step**: no check fails, and the answer and the stream are those of the contents. -/
theorem step_spec {t : Session B} (h : t.stream.Refines c) {call : Call B} (hbelow : t.Below call) :
    ∃ out s' c', t.stream.step call = .ok (out, s') ∧ Contents.Step c call.1 out c' ∧
      s'.Refines c' := by
  obtain ⟨op, junk⟩ := call
  cases op with
  | read count =>
      obtain ⟨s', hread, href⟩ := read_spec h count
      exact ⟨_, s', _, by rw [MemoryStreamImpl.step, hread]; rfl, .read c count, href⟩
  | write bytes =>
      obtain ⟨s', hwrite, href⟩ := write_spec junk h hbelow
      exact ⟨_, s', _, by rw [MemoryStreamImpl.step, hwrite]; rfl, .write c bytes, href⟩
  | setPosition origin offset =>
      obtain ⟨pos, s', hset, c', hstep, href⟩ := setPosition_spec h origin offset
      exact ⟨_, s', c', by rw [MemoryStreamImpl.step, hset]; rfl, hstep, href⟩
  | releaseBuffer =>
      have hall := Buffer.memcpyFrom_spec h.sound (Nat.le_of_eq (Nat.zero_add t.stream.buffer.size))
      rw [List.drop_zero, List.take_of_length_le (Nat.le_of_eq (Buffer.length_contents h.sound)),
        h.contents] at hall
      refine ⟨_, {}, _, ?_, .releaseBuffer c, ⟨?_, rfl, rfl⟩⟩
      · rw [MemoryStreamImpl.step, MemoryStreamImpl.releaseBuffer, hall]
        rfl
      · intro header hheader
        cases hheader

end Steps

/-! ### The runs -/

/-- **A run**: every call is answered as the contents answer it. -/
theorem run_refines {t : Session B} {c : Contents B} (h : t.stream.Refines c)
    {calls : List (Call B)} (hbelow : Runs.Allowed Session.step Session.Below t calls) :
    ∃ t' outs c', Runs.exec Session.step t calls = some t' ∧ t'.outputs = t.outputs ++ outs ∧
      Contents.Run c (calls.map Prod.fst) outs c' ∧ t'.stream.Refines c' := by
  induction calls generalizing t c with
  | nil => exact ⟨t, [], c, rfl, (List.append_nil _).symm, .nil c, h⟩
  | cons call calls ih =>
      obtain ⟨out, s₁, c₁, hstep, hspec, href⟩ := step_spec h hbelow.1
      have hsession : t.step call = some ⟨s₁, t.outputs ++ [out]⟩ := by
        rw [Session.step, hstep]
      obtain ⟨t', outs, c', hexec, houts, hrun, href'⟩ := ih href (hbelow.2 _ hsession)
      refine ⟨t', out :: outs, c', ?_, ?_, .cons hspec hrun, href'⟩
      · rw [Runs.exec, hsession, Option.bind_some, hexec]
      · rw [houts, List.append_assoc]
        rfl

/-- A stream over any buffer, behind whose bytes it begins. -/
theorem memoryStream_refines {buffer : Buffer B} (hbuffer : buffer.Sound) {calls : List (Call B)}
    (hbelow : Runs.Allowed Session.step Session.Below ⟨.ofBuffer buffer, []⟩ calls) :
    ∃ t c, Runs.exec Session.step ⟨.ofBuffer buffer, []⟩ calls = some t ∧
      Contents.Run ⟨buffer.contents, buffer.contents.length, Nat.le_refl _⟩
        (calls.map Prod.fst) t.outputs c ∧
      t.stream.Refines c ∧ t.stream.pos ≤ t.stream.buffer.size := by
  have hinit : (MemoryStreamImpl.ofBuffer buffer).Refines
      ⟨buffer.contents, buffer.contents.length, Nat.le_refl _⟩ :=
    ⟨hbuffer, rfl, (Buffer.length_contents hbuffer).symm⟩
  obtain ⟨t, outs, c, hexec, houts, hrun, href⟩ := run_refines (t := ⟨_, []⟩) hinit hbelow
  rw [List.nil_append] at houts
  exact ⟨t, c, hexec, houts ▸ hrun, href, Refines.pos_le href⟩

/-- Bytes are written, one of them again, what is behind it is read, and a released stream is
written to. -/
def writtenAgain : List (Call ℕ) :=
  [.write [1, 2, 3], .setPosition .begin 1, .write [7], .read 5, .setPosition .current (-9),
    .releaseBuffer, .write [4]].map fun op => (op, fun _ => 0)

theorem memoryStream_refines_writtenAgain :
    ∃ t c, Runs.exec Session.step ⟨.ofBuffer {}, []⟩ writtenAgain = some t ∧
      Contents.Run ⟨[], 0, Nat.le_refl _⟩ (writtenAgain.map Prod.fst) t.outputs c ∧
      t.stream.Refines c ∧ t.stream.pos ≤ t.stream.buffer.size := by
  have hbuffer : Buffer.Sound ({} : Buffer ℕ) := fun header hheader => by cases hheader
  exact memoryStream_refines hbuffer (by decide +kernel)

end MyEngine.Io
