import MyEngine.Io.MemoryStream
import MyEngine.Support.Results

/-!
# Io — StreamPosition

`setPosition` of both streams of `memory_stream.cpp`: the one over a `Buffer` and the one over a
span of bytes, which cannot be written to.

* `MemoryStream.step`: the calls of either.
* `Bounded`: what every run of them keeps, also where a `Buffer` is asked for more than 4 GiB.
* `setPosition_iff`: a seek leads to its target exactly where the sum is an `int64_t`.
-/

namespace MyEngine.Io

open Memory Support

variable {B : Type*}

/-! ### `ReadOnlyMemoryStream` -/

/-- A `std::span`.  No object has more than `PTRDIFF_MAX` bytes. -/
structure Span (B : Type*) where
  bytes : List B
  length_lt : bytes.length < 2 ^ 63
  deriving DecidableEq

structure ReadOnlyMemoryStream (B : Type*) where
  buffer : Span B
  pos : ℕ := 0
  deriving DecidableEq

namespace ReadOnlyMemoryStream

def read (s : ReadOnlyMemoryStream B) (count : ℕ) :
    Except BytesFault (ℕ × List B × ReadOnlyMemoryStream B) :=
  if s.pos ≤ s.buffer.bytes.length then
    let availableSize := s.buffer.bytes.length - s.pos
    let actualReadCount := min availableSize count
    if actualReadCount = 0 then .ok (0, [], s)
    else
      .ok (actualReadCount, (s.buffer.bytes.drop s.pos).take actualReadCount,
        { s with pos := s.pos + actualReadCount })
  else .error .fatal

/-- `write`: "Invalid operation". -/
def write (s : ReadOnlyMemoryStream B) (_bytes : List B) :
    Except BytesFault (ℕ × ReadOnlyMemoryStream B) :=
  .ok (0, s)

/-- `setPosition`, as that of `MemoryStreamImpl`. -/
def setPosition (s : ReadOnlyMemoryStream B) (origin : OffsetOrigin) (offset : ℤ) :
    Except BytesFault (ℕ × ReadOnlyMemoryStream B) :=
  let newPos := newPosition s.buffer.bytes.length s.pos origin offset
  if 0 ≤ newPos ∧ newPos ≤ s.buffer.bytes.length then
    .ok (newPos.toNat, { s with pos := newPos.toNat })
  else .error .fatal

end ReadOnlyMemoryStream

/-! ### Both of them -/

inductive MemoryStream (B : Type*) where
  | impl (s : MemoryStreamImpl B)
  | readOnly (s : ReadOnlyMemoryStream B)
  deriving DecidableEq

namespace MemoryStream

def size : MemoryStream B → ℕ
  | impl s     => s.buffer.size
  | readOnly s => s.buffer.bytes.length

def getPosition : MemoryStream B → ℕ
  | impl s     => s.pos
  | readOnly s => s.pos

def setPosition (origin : OffsetOrigin) (offset : ℤ) :
    MemoryStream B → Except BytesFault (ℕ × MemoryStream B)
  | impl s     => (s.setPosition origin offset).map fun r => (r.1, impl r.2)
  | readOnly s => (s.setPosition origin offset).map fun r => (r.1, readOnly r.2)

/-- The stream at another position. -/
def withPosition (pos : ℕ) : MemoryStream B → MemoryStream B
  | impl s     => impl { s with pos := pos }
  | readOnly s => readOnly { s with pos := pos }

/-- One call.  A stream that cannot be written to has no `releaseBuffer`. -/
def step (t : MemoryStream B) (call : Call B) : Option (MemoryStream B) :=
  match t, call with
  | impl s, call                                => (s.step call).toOption.map fun r => impl r.2
  | readOnly s, (.read count, _)                =>
      (s.read count).toOption.map fun r => readOnly r.2.2
  | readOnly s, (.write bytes, _)               =>
      (s.write bytes).toOption.map fun r => readOnly r.2
  | readOnly s, (.setPosition origin offset, _) =>
      (s.setPosition origin offset).toOption.map fun r => readOnly r.2
  | readOnly _, (.releaseBuffer, _)             => none

/-- What is written is no larger than an object can be. -/
def Fits (t : MemoryStream B) : Call B → Prop
  | (.write bytes, _) => t.getPosition + bytes.length < 2 ^ 63
  | _                 => True

instance (t : MemoryStream B) : ∀ call, Decidable (t.Fits call)
  | (.write _, _)         => inferInstanceAs (Decidable (_ < _))
  | (.read _, _)          => inferInstanceAs (Decidable True)
  | (.setPosition _ _, _) => inferInstanceAs (Decidable True)
  | (.releaseBuffer, _)   => inferInstanceAs (Decidable True)

/-- The streams of `createMemoryStream` and `createReadonlyMemoryStream`. -/
inductive Created : MemoryStream B → Prop where
  | impl {buffer : Buffer B} (h : buffer.Sound) : Created (impl (.ofBuffer buffer))
  | readOnly (buffer : Span B) : Created (readOnly ⟨buffer, 0⟩)

def base (t : MemoryStream B) : OffsetOrigin → ℤ
  | .begin   => 0
  | .current => t.getPosition
  | .end     => t.size

/-- Where a seek is to lead to, whatever the sum is. -/
def target (t : MemoryStream B) (origin : OffsetOrigin) (offset : ℤ) : ℤ :=
  min t.size (max 0 (t.base origin + offset))

/-- The seek leads to its target, returns it and changes nothing else. -/
def Seeks (t : MemoryStream B) (origin : OffsetOrigin) (offset : ℤ) : Prop :=
  ∃ pos : ℕ, (pos : ℤ) = t.target origin offset ∧
    t.setPosition origin offset = .ok (pos, t.withPosition pos)

end MemoryStream

/-! ### What a run keeps -/

namespace MemoryStreamImpl
variable {s s' : MemoryStreamImpl B} {out : Output B} {call : Call B}

/-- The size is one of 32 bits; behind 4 GiB the position can be greater. -/
def Bounded (s : MemoryStreamImpl B) : Prop := s.buffer.size < 2 ^ 32 ∧ s.pos < 2 ^ 63

theorem read_bounded {count n : ℕ} {bytes : List B} (h : s.Bounded)
    (hread : s.read count = .ok (n, bytes, s')) : s'.Bounded := by
  obtain ⟨hsize, hpos⟩ := h
  simp only [read] at hread
  split at hread
  · next hle =>
      split at hread
      · obtain rfl := (Prod.mk.inj (Prod.mk.inj (Except.ok.inj hread)).2).2
        exact ⟨hsize, hpos⟩
      · split at hread
        · cases hread
        · obtain rfl := (Prod.mk.inj (Prod.mk.inj (Except.ok.inj hread)).2).2
          refine ⟨hsize, ?_⟩
          dsimp only
          omega
  · cases hread

theorem write_bounded {junk : ℕ → B} {bytes : List B} {n : ℕ} (h : s.Bounded)
    (hfits : s.pos + bytes.length < 2 ^ 63) (hwrite : s.write junk bytes = .ok (n, s')) :
    s'.Bounded := by
  simp only [write] at hwrite
  split at hwrite
  · split at hwrite
    · cases hwrite
    · next buffer hgrown =>
        have hbuffer : buffer.size < 2 ^ 32 := by
          split at hgrown
          · obtain ⟨r, happend, rfl⟩ := map_eq_ok hgrown
            rw [Buffer.append_size happend]
            exact Nat.mod_lt _ (Nat.two_pow_pos 32)
          · obtain rfl := Except.ok.inj hgrown
            exact h.1
        split at hwrite
        · cases hwrite
        · next buffer' hto =>
            -- the position is not reduced to 32 bits, as the size is
            obtain rfl := (Prod.mk.inj (Except.ok.inj hwrite)).2
            exact ⟨Buffer.memcpyTo_size hto ▸ hbuffer, hfits⟩
  · cases hwrite

theorem setPosition_bounded {origin : OffsetOrigin} {offset : ℤ} {n : ℕ} (h : s.Bounded)
    (hset : s.setPosition origin offset = .ok (n, s')) : s'.Bounded := by
  obtain ⟨hsize, hpos⟩ := h
  simp only [setPosition] at hset
  split at hset
  · next hle =>
      obtain rfl := (Prod.mk.inj (Except.ok.inj hset)).2
      refine ⟨hsize, ?_⟩
      dsimp only
      omega
  · cases hset

theorem step_bounded (h : s.Bounded) (hfits : (MemoryStream.impl s).Fits call)
    (hstep : s.step call = .ok (out, s')) : s'.Bounded := by
  obtain ⟨op, junk⟩ := call
  cases op with
  | read count =>
      obtain ⟨⟨n, bytes, s₁⟩, hread, heq⟩ := map_eq_ok hstep
      obtain rfl := (Prod.mk.inj heq).2
      exact read_bounded h hread
  | write bytes =>
      obtain ⟨⟨n, s₁⟩, hwrite, heq⟩ := map_eq_ok hstep
      obtain rfl := (Prod.mk.inj heq).2
      exact write_bounded h hfits hwrite
  | setPosition origin offset =>
      obtain ⟨⟨n, s₁⟩, hset, heq⟩ := map_eq_ok hstep
      obtain rfl := (Prod.mk.inj heq).2
      exact setPosition_bounded h hset
  | releaseBuffer =>
      obtain ⟨bytes, -, heq⟩ := map_eq_ok hstep
      obtain rfl := (Prod.mk.inj heq).2
      exact ⟨Nat.two_pow_pos 32, Nat.two_pow_pos 63⟩

end MemoryStreamImpl

namespace MemoryStream
variable {t t' : MemoryStream B} {call : Call B}

/-- A span does not change, and the position stays in it. -/
def Bounded : MemoryStream B → Prop
  | impl s     => s.Bounded
  | readOnly s => s.pos ≤ s.buffer.bytes.length

theorem Created.bounded (h : t.Created) : t.Bounded := by
  cases h with
  | @impl buffer hsound =>
      have hsize : buffer.size < 2 ^ 32 := by
        rcases buffer with ⟨_ | header⟩
        · exact Nat.two_pow_pos 32
        · exact (hsound header rfl).size_lt
      exact ⟨hsize, hsize.trans (by decide)⟩
  | readOnly buffer => exact Nat.zero_le _

theorem readOnly_step_bounded {s : ReadOnlyMemoryStream B} (h : (readOnly s).Bounded)
    (hstep : (readOnly s).step call = some t') : t'.Bounded := by
  obtain ⟨op, junk⟩ := call
  cases op with
  | read count =>
      obtain ⟨⟨n, bytes, s₁⟩, hread, rfl⟩ := map_toOption_eq_some hstep
      simp only [ReadOnlyMemoryStream.read] at hread
      split at hread
      · split at hread
        · obtain rfl := (Prod.mk.inj (Prod.mk.inj (Except.ok.inj hread)).2).2
          exact h
        · obtain rfl := (Prod.mk.inj (Prod.mk.inj (Except.ok.inj hread)).2).2
          simp only [Bounded] at h ⊢
          omega
      · cases hread
  | write bytes =>
      obtain rfl := Option.some.inj hstep
      exact h
  | setPosition origin offset =>
      obtain ⟨⟨n, s₁⟩, hset, rfl⟩ := map_toOption_eq_some hstep
      simp only [ReadOnlyMemoryStream.setPosition] at hset
      split at hset
      · next hle =>
          obtain rfl := (Prod.mk.inj (Except.ok.inj hset)).2
          simp only [Bounded]
          omega
      · cases hset
  | releaseBuffer => cases hstep

/-- **One step** keeps the bounds. -/
theorem step_bounded (h : t.Bounded) (hfits : t.Fits call) (hstep : t.step call = some t') :
    t'.Bounded := by
  cases t with
  | impl s =>
      obtain ⟨⟨out, s'⟩, hs, rfl⟩ := map_toOption_eq_some hstep
      exact MemoryStreamImpl.step_bounded (s := s) h hfits hs
  | readOnly s => exact readOnly_step_bounded h hstep

/-- **Every run** does. -/
theorem run_bounded (hrun : Runs.Steps step Fits t t') (h : t.Bounded) : t'.Bounded :=
  hrun.invariant step_bounded h

theorem Bounded.size_lt (h : t.Bounded) : t.size < 2 ^ 63 := by
  cases t with
  | impl s => exact h.1.trans (by decide)
  | readOnly s => exact s.buffer.length_lt

theorem Bounded.getPosition_lt (h : t.Bounded) : t.getPosition < 2 ^ 63 := by
  cases t with
  | impl s => exact h.2
  | readOnly s => exact Nat.lt_of_le_of_lt h s.buffer.length_lt

/-! ### A seek -/

theorem addInt64_overflow {a b : ℤ} (hlo : 2 ^ 63 ≤ a + b) (hhi : a + b < 2 ^ 64) :
    addInt64 a b = a + b - 2 ^ 64 := by
  have hwrap : Int.bmod (a + b) (2 ^ 64) = a + b - 2 ^ 64 := by
    rw [Int.bmod_def]
    split <;> omega
  exact hwrap

theorem newPosition_sum (t : MemoryStream B) (origin : OffsetOrigin) (offset : Int64) :
    newPosition t.size t.getPosition origin offset.toInt =
      min ↑t.size (max 0 (addInt64 (t.base origin) offset.toInt)) := by
  cases origin with
  | begin =>
      have hoffset : addInt64 0 offset.toInt = offset.toInt := by
        have hlo := offset.le_toInt
        have hhi := offset.toInt_lt
        rw [addInt64_eq (by omega) (by omega), Int.zero_add]
      rw [base, hoffset]
      exact clamp_eq t.size offset.toInt
  | current => exact clamp_eq t.size (addInt64 t.getPosition offset.toInt)
  | «end» => exact clamp_eq t.size (addInt64 t.size offset.toInt)

theorem setPosition_eq (t : MemoryStream B) {origin : OffsetOrigin} {offset : ℤ} {pos : ℕ}
    (h : newPosition t.size t.getPosition origin offset = pos) (hpos : pos ≤ t.size) :
    t.setPosition origin offset = .ok (pos, t.withPosition pos) := by
  cases t with
  | impl s =>
      simp only [size, getPosition] at h hpos
      simp only [setPosition, MemoryStreamImpl.setPosition, h]
      rw [if_pos (by omega)]
      rfl
  | readOnly s =>
      simp only [size, getPosition] at h hpos
      simp only [setPosition, ReadOnlyMemoryStream.setPosition, h]
      rw [if_pos (by omega)]
      rfl

theorem seeks_iff_eq (t : MemoryStream B) (origin : OffsetOrigin) (offset : Int64) :
    t.Seeks origin offset.toInt ↔
      newPosition t.size t.getPosition origin offset.toInt = t.target origin offset.toInt := by
  have hposition := newPosition_sum t origin offset
  obtain ⟨pos, hpos⟩ := Int.eq_ofNat_of_zero_le (a := newPosition t.size t.getPosition origin
    offset.toInt) (by omega)
  have hset := setPosition_eq t hpos (by omega)
  rw [hpos]
  constructor
  · rintro ⟨pos', htarget, hset'⟩
    obtain rfl := (Prod.mk.inj (Except.ok.inj (hset.symm.trans hset'))).1
    exact htarget
  · intro htarget
    exact ⟨pos, htarget, hset⟩

theorem seeks_iff (h : t.Bounded) (origin : OffsetOrigin) (offset : Int64) :
    t.Seeks origin offset.toInt ↔ t.base origin + offset.toInt < 2 ^ 63 ∨ t.size = 0 := by
  have hlo := offset.le_toInt
  have hhi := offset.toInt_lt
  have hbase : 0 ≤ t.base origin ∧ t.base origin < 2 ^ 63 := by
    have hsize := h.size_lt
    have hpos := h.getPosition_lt
    cases origin <;> simp only [base] <;> omega
  rw [seeks_iff_eq, newPosition_sum, target]
  by_cases hsum : t.base origin + offset.toInt < 2 ^ 63
  · rw [addInt64_eq (by omega) hsum]
    exact iff_of_true rfl (.inl hsum)
  · -- the sum is greater than the size, and what it wraps around to is negative
    rw [addInt64_overflow (by omega) (by omega)]
    have hsize := h.size_lt
    omega

end MemoryStream

/-- **A seek** of any stream, after any calls. -/
theorem setPosition_iff {s t : MemoryStream B} (hs : s.Created)
    (hrun : Runs.Steps MemoryStream.step MemoryStream.Fits s t) (origin : OffsetOrigin)
    (offset : Int64) :
    t.Seeks origin offset.toInt ↔ t.base origin + offset.toInt < 2 ^ 63 ∨ t.size = 0 :=
  MemoryStream.seeks_iff (MemoryStream.run_bounded hrun hs.bounded) origin offset

/-- A byte is written, and the position goes two back and one ahead. -/
def seekBack : List (Call ℕ) :=
  [.write [7, 8, 9], .setPosition .current (-2), .read 1].map fun op => (op, fun _ => 0)

def afterSeekBack : MemoryStream ℕ :=
  .impl ⟨⟨some ⟨112, 3, [7, 8, 9] ++ List.replicate 109 0⟩⟩, 2⟩

theorem setPosition_iff_seekBack :
    afterSeekBack.Seeks .end (Int64.ofInt (-1)).toInt ↔
      afterSeekBack.base .end + (Int64.ofInt (-1)).toInt < 2 ^ 63 ∨ afterSeekBack.size = 0 := by
  have hnone : Buffer.Sound ({} : Buffer ℕ) := fun header hheader => by cases hheader
  have hallowed : Runs.Allowed MemoryStream.step MemoryStream.Fits (.impl (.ofBuffer {}))
      seekBack := by decide +kernel
  have hexec : Runs.exec MemoryStream.step (.impl (.ofBuffer {})) seekBack =
      some afterSeekBack := by decide +kernel
  exact setPosition_iff (.impl hnone) (Runs.exec_steps hallowed hexec) .end (Int64.ofInt (-1))

def oneByte : MemoryStream ℕ := .readOnly ⟨⟨[7], by decide⟩, 0⟩

/-- The sum of the size and of the greatest offset is no `int64_t`: the seek leads to the beginning,
not to the end. -/
theorem not_seeks_oneByte : oneByte.Created ∧ ¬ oneByte.Seeks .end Int64.maxValue.toInt := by
  refine ⟨.readOnly _, ?_⟩
  rintro ⟨pos, htarget, hset⟩
  have htarget' : oneByte.target .end Int64.maxValue.toInt = 1 := by decide +kernel
  have hset' : oneByte.setPosition .end Int64.maxValue.toInt = .ok (0, oneByte) := by
    decide +kernel
  obtain rfl := (Prod.mk.inj (Except.ok.inj (hset.symm.trans hset'))).1
  omega

end MyEngine.Io
