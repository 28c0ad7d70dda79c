import MyEngine.Io.SourceStream
import MyEngine.Memory.BufferBytes
import MyEngine.Support.Results

/-!
# Io — CopyStream

`copyFromStream` and `copyStream`, of `stream.cpp`, between streams.  The destination takes all that
is written to it.

* `readLoop_eq`: the loop of `copyFromStream` has what the source has, up to the size.
* `copyLoop_eq`: the loop of `copyStream` copies what is `taken` of the source.
* `copiesStream_iff`: the sources from which they copy what they are asked for.
-/

namespace MyEngine.Io

open Memory Support

variable {B : Type*}

section Code
variable (junk : ℕ → B)

/-- The loop of `copyFromStream`: the buffer, and what is read. -/
def readLoop (size readOffset : ℕ) (buffer : Buffer B) (src : SourceStream B) :
    Except BytesFault (Buffer B) :=
  if _h : readOffset < size then
    if _hzero : (src.read (size - readOffset)).1 = [] then .ok buffer
    else
      match buffer.memcpyTo readOffset (src.read (size - readOffset)).1 with
      | .error e   => .error e
      | .ok buffer =>
          readLoop size (readOffset + (src.read (size - readOffset)).1.length) buffer
            (src.read (size - readOffset)).2
  else .ok buffer
termination_by size - readOffset
decreasing_by
  have hpos := List.length_pos_of_ne_nil _hzero
  omega

/-- The count that is returned, and what the destination has then. -/
def copyFromStream (dst : List B) (size : ℕ) (src : SourceStream B) :
    Except BytesFault (ℕ × List B) :=
  if size = 0 then .ok (0, dst)
  else
    match readLoop size 0 ⟨some (allocate junk size)⟩ src with
    | .error e   => .error e
    | .ok buffer => (buffer.memcpyFrom 0 size).map fun bytes => (size, dst ++ bytes)

/-- The loop of `copyStream`. -/
def copyLoop (buffer : Buffer B) (totalRead : ℕ) (dst : List B) (src : SourceStream B) :
    Except BytesFault (ℕ × List B) :=
  match buffer.memcpyTo 0 (src.read 4096).1 with
  | .error e   => .error e
  | .ok buffer =>
      if _h : (src.read 4096).1.length < 4096 then
        match buffer.resize junk (src.read 4096).1.length with
        | .error e   => .error e
        | .ok buffer =>
            (buffer.memcpyFrom 0 buffer.size).map fun bytes =>
              (totalRead + (src.read 4096).1.length, dst ++ bytes)
      else
        match buffer.memcpyFrom 0 buffer.size with
        | .error e  => .error e
        | .ok bytes =>
            copyLoop buffer (totalRead + (src.read 4096).1.length) (dst ++ bytes) (src.read 4096).2
termination_by src.bytes.length
decreasing_by
  have hlength := src.length_add_length 4096
  omega

def copyStream (dst : List B) (src : SourceStream B) : Except BytesFault (ℕ × List B) :=
  copyLoop junk ⟨some (allocate junk 4096)⟩ 0 dst src

end Code

/-! ### `copyFromStream` -/

section CopyFrom
variable {junk : ℕ → B} {size readOffset : ℕ} {header : Block B} {src : SourceStream B}
  {bytes dst : List B}

/-- A storage with `data()` for that many bytes. -/
structure Room (size : ℕ) (header : Block B) : Prop where
  size_ne : header.size ≠ 0
  capacity_ne : header.capacity ≠ 0
  length_le : size ≤ header.memory.length

theorem Room.data (h : Room size header) :
    Buffer.data ⟨some header⟩ = .ok (some header.memory) := by
  simp [Buffer.data, h.size_ne, h.capacity_ne]

theorem Room.memcpyTo (h : Room size header) (hle : readOffset + bytes.length ≤ size) :
    Buffer.memcpyTo ⟨some header⟩ readOffset bytes =
      .ok ⟨some { header with memory := overwrite header.memory readOffset bytes }⟩ := by
  have hfits := hle.trans h.length_le
  simp only [Buffer.memcpyTo, h.data, hfits, if_true]
  rfl

theorem Room.overwrite (h : Room size header) (hle : readOffset + bytes.length ≤ size) :
    Room size { header with memory := Support.overwrite header.memory readOffset bytes } := by
  have hfits := hle.trans h.length_le
  refine ⟨h.size_ne, h.capacity_ne, ?_⟩
  change size ≤ (Support.overwrite header.memory readOffset bytes).length
  rw [length_overwrite (by omega)]
  exact h.length_le.trans (Nat.le_max_left _ _)

theorem Room.memcpyFrom (h : Room size header) :
    Buffer.memcpyFrom ⟨some header⟩ 0 size = .ok (header.memory.take size) := by
  simp [Buffer.memcpyFrom, h.data, h.length_le]

theorem room_of_memcpyFrom (hsize : size ≠ 0)
    (h : Buffer.memcpyFrom ⟨some header⟩ 0 size = .ok bytes) :
    Room size header ∧ bytes.length = size := by
  simp only [Buffer.memcpyFrom, Buffer.data] at h
  by_cases hheader : header.size = 0
  · simp [hheader, hsize] at h
  · by_cases hcapacity : header.capacity = 0
    · simp [hheader, hcapacity] at h
    · simp only [hheader, hcapacity, if_false, List.drop_zero, Nat.zero_add] at h
      by_cases hle : size ≤ header.memory.length
      · rw [if_pos hle] at h
        obtain rfl := Except.ok.inj h
        exact ⟨⟨hheader, hcapacity, hle⟩, by rw [List.length_take, Nat.min_eq_left hle]⟩
      · rw [if_neg hle] at h
        cases h

/-- The bytes of the source follow those that are read. -/
theorem readLoop_eq (hroom : Room size header) (hle : readOffset ≤ size)
    (hsrc : size ≤ readOffset + src.bytes.length) :
    ∃ header', readLoop size readOffset ⟨some header⟩ src = .ok ⟨some header'⟩ ∧
      Room size header' ∧ header'.memory.take size =
        header.memory.take readOffset ++ src.bytes.take (size - readOffset) := by
  induction hn : size - readOffset using Nat.strong_induction_on
    generalizing readOffset header src with
  | _ n ih =>
  rw [readLoop]
  by_cases hlt : readOffset < size
  · have hpos : 0 < size - readOffset := Nat.sub_pos_of_lt hlt
    have hne : (src.read (size - readOffset)).1 ≠ [] := by
      intro hnil
      have hbytes := congrArg List.length (src.bytes_eq_nil hpos hnil)
      rw [List.length_nil] at hbytes
      omega
    have hread := List.length_pos_of_ne_nil hne
    have hcount := src.length_read_le (size - readOffset)
    have hrest := src.length_add_length (size - readOffset)
    have hfits : readOffset + (src.read (size - readOffset)).1.length ≤ size := by omega
    have hsrc' : size ≤ readOffset + (src.read (size - readOffset)).1.length +
        (src.read (size - readOffset)).2.bytes.length := by omega
    obtain ⟨header', hloop, hroom', htake⟩ :=
      ih _ (by omega) (hroom.overwrite hfits) hfits hsrc' rfl
    refine ⟨header', ?_, hroom', ?_⟩
    · rw [dif_pos hlt, dif_neg hne, hroom.memcpyTo hfits]
      exact hloop
    · rw [htake, take_overwrite_end (hle.trans hroom.length_le), List.append_assoc]
      congr 1
      conv_rhs => rw [← hn, ← src.read_append (size - readOffset), List.take_append,
        List.take_of_length_le hcount]
      rw [Nat.sub_add_eq]
  · obtain rfl : readOffset = size := by omega
    rw [dif_neg hlt]
    refine ⟨header, rfl, hroom, ?_⟩
    rw [← hn, Nat.sub_self, List.take_zero, List.append_nil]

/-- Bytes that are stored are within the memory. -/
theorem memcpyTo_ok {buffer : Buffer B} (hne : bytes ≠ [])
    (h : Buffer.memcpyTo ⟨some header⟩ readOffset bytes = .ok buffer) :
    readOffset + bytes.length ≤ header.memory.length ∧
      buffer = ⟨some { header with memory := overwrite header.memory readOffset bytes }⟩ := by
  simp only [Buffer.memcpyTo, Buffer.data] at h
  by_cases hsize : header.size = 0
  · simp [hsize, hne] at h
  · by_cases hcapacity : header.capacity = 0
    · simp [hsize, hcapacity] at h
    · simp only [hsize, hcapacity, if_false] at h
      split at h
      case isTrue hle => exact ⟨hle, (Except.ok.inj h).symm⟩
      case isFalse => cases h

/-- The loop changes the bytes of the storage only. -/
theorem readLoop_storage {buffer : Buffer B}
    (h : readLoop size readOffset ⟨some header⟩ src = .ok buffer) :
    ∃ memory, buffer = ⟨some { header with memory := memory }⟩ ∧
      memory.length = header.memory.length := by
  induction hn : size - readOffset using Nat.strong_induction_on
    generalizing readOffset header src with
  | _ n ih =>
  rw [readLoop] at h
  split at h
  case isTrue hlt =>
    split at h
    case isTrue => exact ⟨header.memory, (Except.ok.inj h).symm, rfl⟩
    case isFalse hne =>
      have hread := List.length_pos_of_ne_nil hne
      split at h
      case h_1 => cases h
      case h_2 buffer' hto =>
        obtain ⟨hle, rfl⟩ := memcpyTo_ok hne hto
        obtain ⟨memory, hbuffer, hlength⟩ := ih _ (by omega) h rfl
        refine ⟨memory, hbuffer, hlength.trans ?_⟩
        exact (length_overwrite (by omega)).trans (Nat.max_eq_left hle)
  case isFalse => exact ⟨header.memory, (Except.ok.inj h).symm, rfl⟩

/-- It is the size that is written and returned, whatever is read. -/
theorem copyFromStream_ok {count : ℕ} (h : copyFromStream junk dst size src = .ok (count, bytes))
    (hsize : size ≠ 0) :
    count = size ∧ bytes.length = dst.length + size ∧ Room size (allocate junk size) := by
  rw [copyFromStream, if_neg hsize] at h
  split at h
  case h_1 => cases h
  case h_2 buffer hloop =>
    obtain ⟨memory, rfl, hlength⟩ := readLoop_storage hloop
    obtain ⟨written, hfrom, heq⟩ := map_eq_ok h
    obtain ⟨rfl, rfl⟩ := Prod.mk.inj heq
    obtain ⟨hroom, hwritten⟩ := room_of_memcpyFrom hsize hfrom
    refine ⟨rfl, ?_, hroom.size_ne, hroom.capacity_ne, hlength ▸ hroom.length_le⟩
    rw [List.length_append, hwritten]

theorem copyFromStream_eq (hroom : Room size (allocate junk size)) (hle : size ≤ src.bytes.length)
    (hsize : size ≠ 0) :
    copyFromStream junk dst size src = .ok (size, dst ++ src.bytes.take size) := by
  obtain ⟨header, hloop, hroom', htake⟩ := readLoop_eq hroom (Nat.zero_le size)
    (hle.trans (Nat.le_add_left _ 0))
  rw [copyFromStream, if_neg hsize, hloop]
  simp only [hroom'.memcpyFrom, htake, Except.map]
  rw [List.take_zero, List.nil_append, Nat.sub_zero]

/-- The first bytes of the source are copied, as many as are asked for and there are. -/
theorem copyFromStream_copies_iff :
    copyFromStream junk dst size src =
        .ok (min size src.bytes.length, dst ++ src.bytes.take (min size src.bytes.length)) ↔
      size = 0 ∨ size ≤ src.bytes.length ∧ Room size (allocate junk size) := by
  rcases Nat.eq_zero_or_pos size with rfl | hpos
  · simp [copyFromStream]
  · have hsize : size ≠ 0 := hpos.ne'
    constructor
    · intro h
      obtain ⟨hcount, -, hroom⟩ := copyFromStream_ok h hsize
      exact .inr ⟨by omega, hroom⟩
    · rintro (h | ⟨hle, hroom⟩)
      · exact absurd h hsize
      · rw [Nat.min_eq_left hle]
        exact copyFromStream_eq hroom hle hsize

/-- Sizes of 32 bits have room. -/
theorem room_of_lt (junk : ℕ → B) (hpos : 0 < size) (hlt : size < 2 ^ 32) :
    Room size (allocate junk size) := by
  obtain ⟨hsound, hle⟩ := allocate_sound junk (hlt.trans (by decide))
  refine ⟨?_, hsound.capacity_pos.ne', hle⟩
  rw [allocate_size junk hlt]
  exact hpos.ne'

end CopyFrom

/-! ### `copyStream` -/

section Copy
variable {junk : ℕ → B} {header : Block B} {src : SourceStream B} {dst : List B} {totalRead : ℕ}

/-- A block that is not full is what a buffer of its size has. -/
theorem memcpyFrom_resize (junk : ℕ → B) {bytes : List B} (hsound : header.Sound)
    (hcapacity : bytes.length ≤ header.capacity) (hlt : bytes.length < 2 ^ 32)
    (hbytes : bytes <+: Buffer.contents ⟨some header⟩) :
    ∃ buffer, Buffer.resize junk ⟨some header⟩ bytes.length = .ok buffer ∧
      buffer.memcpyFrom 0 buffer.size = .ok bytes := by
  have hbuffer : Buffer.Sound ⟨some header⟩ := by
    rintro _ ⟨⟩
    exact hsound
  obtain ⟨buffer, tail, hresize, hsound', hsize, hcontents⟩ :=
    Buffer.resize_spec junk hbuffer hlt (by rintro _ ⟨⟩; exact .inl hcapacity)
  rw [← List.prefix_iff_eq_take.1 hbytes] at hcontents
  refine ⟨buffer, hresize, ?_⟩
  rw [Buffer.memcpyFrom_spec hsound' (Nat.zero_add buffer.size).le, hcontents, hsize,
    List.drop_zero, List.take_left]

/-- A block that is stored at the beginning. -/
theorem memcpyTo_zero {bytes : List B} (hsound : header.Sound) (hne : header.size ≠ 0)
    (hle : bytes.length ≤ header.size) :
    ∃ header', Buffer.memcpyTo ⟨some header⟩ 0 bytes = .ok ⟨some header'⟩ ∧ header'.Sound ∧
      header'.size = header.size ∧ header'.capacity = header.capacity ∧
        bytes <+: Buffer.contents ⟨some header'⟩ := by
  have hfits : 0 + bytes.length ≤ header.memory.length := by
    rw [Nat.zero_add]
    exact hle.trans hsound.size_le
  refine ⟨_, Buffer.memcpyTo_memory hsound hne hfits, Buffer.sound_overwrite hsound hfits, rfl, rfl,
    ?_⟩
  have hcontents : Buffer.contents ⟨some { header with
      memory := overwrite header.memory 0 bytes }⟩ =
        (bytes ++ header.memory.drop (0 + bytes.length)).take header.size := rfl
  rw [hcontents, List.take_append, List.take_of_length_le hle]
  exact List.prefix_append _ _

/-- Each block that is read is written. -/
theorem copyLoop_eq (hsound : header.Sound) (hsize : header.size = 4096)
    (hcapacity : 4096 ≤ header.capacity) :
    copyLoop junk ⟨some header⟩ totalRead dst src =
      .ok (totalRead + (src.taken 4096).length, dst ++ src.taken 4096) := by
  induction src using MyEngine.Io.SourceStream.taken.induct 4096
    generalizing header totalRead dst with
  | case1 src hfull ih =>
      have hlength : (src.read 4096).1.length = 4096 :=
        le_antisymm (src.length_read_le 4096) hfull.2
      obtain ⟨header', hto, hsound', hsize', hcapacity', hprefix⟩ :=
        memcpyTo_zero hsound (by omega) (hlength.trans hsize.symm).le
      have hbuffer : Buffer.Sound ⟨some header'⟩ := by
        rintro _ ⟨⟩
        exact hsound'
      have hcontents : (src.read 4096).1 = Buffer.contents ⟨some header'⟩ := by
        refine hprefix.eq_of_length ?_
        rw [Buffer.length_contents hbuffer, hlength]
        exact (hsize'.trans hsize).symm
      have hfrom := Buffer.memcpyFrom_spec hbuffer
        (Nat.zero_add (Buffer.size ⟨some header'⟩)).le
      rw [List.drop_zero, ← Buffer.length_contents hbuffer, List.take_length, ← hcontents] at hfrom
      rw [copyLoop, hto]
      simp only [hlength, Nat.lt_irrefl, dite_false]
      rw [← Buffer.length_contents hbuffer, ← hcontents, hfrom]
      refine (ih hsound' (hsize'.trans hsize) (hcapacity'.symm ▸ hcapacity)).trans ?_
      rw [SourceStream.taken_of_full hfull.1 hfull.2, List.length_append, hlength, Nat.add_assoc,
        List.append_assoc]
  | case2 src hshort =>
      have hlt : (src.read 4096).1.length < 4096 :=
        Nat.lt_of_not_le fun hle => hshort ⟨by decide, hle⟩
      obtain ⟨header', hto, hsound', hsize', hcapacity', hprefix⟩ :=
        memcpyTo_zero hsound (by omega) (show (src.read 4096).1.length ≤ header.size by omega)
      obtain ⟨buffer, hresize, hfrom⟩ := memcpyFrom_resize junk hsound'
        (hlt.le.trans (hcapacity'.symm ▸ hcapacity)) (hlt.trans (by decide)) hprefix
      rw [copyLoop, hto]
      simp only [hlt, dite_true, hresize, hfrom]
      rw [SourceStream.taken_of_short hlt]
      rfl

/-- What is `taken` of the source is copied. -/
theorem copyStream_eq (junk : ℕ → B) (dst : List B) (src : SourceStream B) :
    copyStream junk dst src = .ok ((src.taken 4096).length, dst ++ src.taken 4096) := by
  obtain ⟨hsound, -⟩ := allocate_sound junk (show 4096 < 2 ^ 63 by decide)
  have hcapacity : 4096 ≤ (storageSize 4096 - headerSize) % 2 ^ 32 := by decide
  have hcopy : copyStream junk dst src =
      .ok (0 + (src.taken 4096).length, dst ++ src.taken 4096) := copyLoop_eq hsound rfl hcapacity
  rwa [Nat.zero_add] at hcopy

theorem copyStream_copies_iff :
    copyStream junk dst src = .ok (src.bytes.length, dst ++ src.bytes) ↔ src.FullReads 4096 := by
  rw [copyStream_eq, ← SourceStream.taken_eq_iff (by decide)]
  constructor
  · intro h
    exact List.append_cancel_left (Prod.mk.inj (Except.ok.inj h)).2
  · intro h
    rw [h]

end Copy

/-- Both functions copy what they are asked for just when the source has that many bytes and reads
them in full. -/
theorem copiesStream_iff (junk : ℕ → B) (dst : List B) (size : ℕ) (src : SourceStream B) :
    (copyFromStream junk dst size src =
        .ok (min size src.bytes.length, dst ++ src.bytes.take (min size src.bytes.length)) ↔
      size = 0 ∨ size ≤ src.bytes.length ∧ Room size (allocate junk size)) ∧
    (copyStream junk dst src = .ok (src.bytes.length, dst ++ src.bytes) ↔ src.FullReads 4096) :=
  ⟨copyFromStream_copies_iff, copyStream_copies_iff⟩

/-- One byte at a time. -/
def SourceStream.single (bytes : List B) : SourceStream B :=
  ⟨bytes, fun _ => 1, fun _ => Nat.one_pos⟩

/-- What a source does not have is copied from the memory; of a source that is read byte by byte the
first one is copied. -/
theorem not_copies :
    (¬ ∀ (junk : ℕ → ℕ) (dst : List ℕ) (size : ℕ) (src : SourceStream ℕ),
      copyFromStream junk dst size src = .ok (min size src.bytes.length,
        dst ++ src.bytes.take (min size src.bytes.length))) ∧
    ¬ ∀ (junk : ℕ → ℕ) (dst : List ℕ) (src : SourceStream ℕ),
      copyStream junk dst src = .ok (src.bytes.length, dst ++ src.bytes) := by
  constructor
  · intro h
    have hcount := copyFromStream_ok (h (fun _ => 0) [] 2 (.single [])) (by decide)
    exact absurd hcount.1 (by decide)
  · intro h
    have hcopy := h (fun _ => 0) [] (.single [1, 2])
    rw [copyStream_eq, SourceStream.taken_of_short (by decide)] at hcopy
    exact absurd (Prod.mk.inj (Except.ok.inj hcopy)).1 (by decide)

end MyEngine.Io
