import Mathlib.Algebra.Ring.Nat
import MyEngine.Memory.Buffer
import MyEngine.Support.Overwrite

/-!
# Memory — BufferBytes

The bytes of a `Buffer`: what its storage holds behind the header.  The storage has no other
reference, and allocations succeed.

* `Block`: the sizes of the header and all of the memory behind it.
* `resize_spec`, `append_spec`: what the bytes are after a change of the size.
* `memcpyFrom_spec`, `memcpyTo_spec`: `memcpy` within the size.
-/

namespace MyEngine.Memory

open Support

/-- The header, with the memory it was allocated with. -/
structure Block (B : Type*) where
  capacity : ℕ
  size : ℕ
  memory : List B
  deriving DecidableEq, Repr

/-- A `MY_FATAL` fails, or `memcpy` is given a null pointer or goes past the memory. -/
inductive BytesFault where
  | fatal
  | badAccess
  deriving DecidableEq, Repr

structure Buffer (B : Type*) where
  storage : Option (Block B) := none
  deriving DecidableEq, Repr

variable {B : Type*}

/-! ### `BufferStorage` -/

/-- `allocate`; `junk` is what the memory holds. -/
def allocate (junk : ℕ → B) (clientSize : ℕ) : Block B where
  capacity := (storageSize clientSize - headerSize) % 2 ^ 32
  size := clientSize % 2 ^ 32
  memory := (List.range (storageSize clientSize - headerSize)).map junk

namespace Buffer

def size (buffer : Buffer B) : ℕ := buffer.storage.elim 0 Block.size

/-- `data`: the memory behind the pointer. -/
def data (buffer : Buffer B) : Except BytesFault (Option (List B)) :=
  match buffer.storage with
  | none        => .ok none
  | some header =>
      if header.size = 0 then .ok none
      else if header.capacity = 0 then .error .fatal
      else .ok (some header.memory)

/-- `memcpy` from `data() + offset`. -/
def memcpyFrom (buffer : Buffer B) (offset count : ℕ) : Except BytesFault (List B) :=
  match buffer.data with
  | .error e           => .error e
  | .ok none           => if count = 0 then .ok [] else .error .badAccess
  | .ok (some memory) =>
      if offset + count ≤ memory.length then .ok ((memory.drop offset).take count)
      else .error .badAccess

def setMemory (buffer : Buffer B) (memory : List B) : Buffer B :=
  ⟨buffer.storage.map fun header => { header with memory := memory }⟩

/-- `memcpy` to `data() + offset`. -/
def memcpyTo (buffer : Buffer B) (offset : ℕ) (bytes : List B) : Except BytesFault (Buffer B) :=
  match buffer.data with
  | .error e          => .error e
  | .ok none          => if bytes = [] then .ok buffer else .error .badAccess
  | .ok (some memory) =>
      if offset + bytes.length ≤ memory.length then
        .ok (buffer.setMemory (overwrite memory offset bytes))
      else .error .badAccess

/-- `BufferStorage::reallocate`. -/
def reallocate (junk : ℕ → B) (buffer : Buffer B) (newSize : ℕ) :
    Except BytesFault (Buffer B) :=
  match buffer.storage with
  | none        => .ok ⟨some (allocate junk newSize)⟩
  | some header =>
      if header.capacity = 0 then .error .fatal
      else if newSize ≤ header.capacity then
        .ok ⟨some { header with size := newSize % 2 ^ 32 }⟩
      else
        match buffer.memcpyFrom 0 header.size with
        | .error e  => .error e
        | .ok bytes => memcpyTo ⟨some (allocate junk newSize)⟩ 0 bytes

def resize (junk : ℕ → B) (buffer : Buffer B) (newSize : ℕ) : Except BytesFault (Buffer B) :=
  match buffer.storage with
  | none   => .ok ⟨some (allocate junk newSize)⟩
  | some _ => buffer.reallocate junk newSize

/-- `append`; the pointer it returns is `data()` and the offset. -/
def append (junk : ℕ → B) (buffer : Buffer B) (count : ℕ) :
    Except BytesFault (Buffer B × ℕ) :=
  match buffer.resize junk (buffer.size + count) with
  | .error e   => .error e
  | .ok buffer' =>
      match buffer'.data with
      | .error e => .error e
      | .ok _    => .ok (buffer', buffer.size)

/-- The bytes a reader of the buffer sees. -/
def contents (buffer : Buffer B) : List B :=
  buffer.storage.elim [] fun header => header.memory.take header.size

end Buffer

/-! ### What holds of every storage -/

structure Block.Sound (header : Block B) : Prop where
  capacity_pos : 0 < header.capacity
  capacity_le : header.capacity ≤ header.memory.length
  size_le : header.size ≤ header.memory.length
  size_lt : header.size < 2 ^ 32

/-- Storages are multiples of 128: without the header, their sizes are no multiples of 2 ^ 32. -/
theorem allocate_sound (junk : ℕ → B) {n : ℕ} (hn : n < 2 ^ 63) :
    (allocate junk n).Sound ∧ n ≤ (allocate junk n).memory.length := by
  obtain ⟨k, hk, hle⟩ : ∃ k, storageSize n = 128 * k ∧ headerSize + n ≤ storageSize n := by
    simp only [storageSize, alignedSize, headerSize, bigAllocationThreshold,
      allocationGranularity, bigAllocationGranularity]
    by_cases hbig : n < 4096
    · simp only [hbig, if_true]
      exact ⟨(16 + n + 128 - 1) % 2 ^ 64 / 128, by omega, by omega⟩
    · simp only [hbig, if_false]
      exact ⟨(16 + n + 1024 - 1) % 2 ^ 64 / 1024 * 8, by omega, by omega⟩
  simp only [headerSize] at hle
  have hcapacity : (128 * k - 16) % 2 ^ 32 ≠ 0 := by omega
  have hmemory : (allocate junk n).memory.length = 128 * k - 16 := by
    simp only [allocate, List.length_map, List.length_range, hk, headerSize]
  have hroom : n ≤ (allocate junk n).memory.length := by
    rw [hmemory]
    omega
  refine ⟨⟨?_, ?_, (Nat.mod_le n _).trans hroom, Nat.mod_lt n (Nat.two_pow_pos 32)⟩, hroom⟩
  · simp only [allocate, hk, headerSize]
    exact Nat.pos_of_ne_zero hcapacity
  · rw [hmemory]
    simp only [allocate, hk, headerSize]
    exact Nat.mod_le _ _

theorem allocate_size (junk : ℕ → B) {n : ℕ} (hn : n < 2 ^ 32) : (allocate junk n).size = n :=
  Nat.mod_eq_of_lt hn

namespace Buffer
variable {buffer : Buffer B} {n offset count : ℕ} {bytes : List B}

def Sound (buffer : Buffer B) : Prop := ∀ header ∈ buffer.storage, header.Sound

theorem length_contents (h : buffer.Sound) : buffer.contents.length = buffer.size := by
  rcases buffer with ⟨_ | header⟩
  · rfl
  · exact (List.length_take ..).trans (Nat.min_eq_left (h header rfl).size_le)

theorem data_of_sound {header : Block B} (h : header.Sound) :
    data ⟨some header⟩ = .ok (if header.size = 0 then none else some header.memory) := by
  have hcapacity := Nat.ne_of_gt h.capacity_pos
  simp only [data, hcapacity, if_false]
  split <;> rfl

theorem memcpyFrom_spec (h : buffer.Sound) (hle : offset + count ≤ buffer.size) :
    buffer.memcpyFrom offset count = .ok ((buffer.contents.drop offset).take count) := by
  rcases buffer with ⟨_ | header⟩
  · obtain rfl : count = 0 := by
      change offset + count ≤ 0 at hle
      omega
    rfl
  · have hsound := h header rfl
    change offset + count ≤ header.size at hle
    have hmemory := hle.trans hsound.size_le
    rw [memcpyFrom, data_of_sound hsound]
    by_cases hsize : header.size = 0
    · obtain rfl : count = 0 := by omega
      simp [hsize]
    · simp only [hsize, if_false, hmemory, if_true, contents, Option.elim_some]
      rw [List.drop_take, List.take_take, Nat.min_eq_left (by omega)]

theorem memcpyTo_memory {header : Block B} (h : header.Sound) (hsize : header.size ≠ 0)
    (hle : offset + bytes.length ≤ header.memory.length) :
    memcpyTo ⟨some header⟩ offset bytes =
      .ok ⟨some { header with memory := overwrite header.memory offset bytes }⟩ := by
  simp only [memcpyTo, data_of_sound h, hsize, if_false, hle, if_true]
  rfl

/-- Storing keeps the sizes and the memory's length. -/
theorem sound_overwrite {header : Block B} (h : header.Sound)
    (hle : offset + bytes.length ≤ header.memory.length) :
    Block.Sound { header with memory := overwrite header.memory offset bytes } := by
  have hlen : (overwrite header.memory offset bytes).length =
      max header.memory.length (offset + bytes.length) := length_overwrite (by omega)
  exact ⟨h.capacity_pos, h.capacity_le.trans (hlen ▸ Nat.le_max_left _ _),
    h.size_le.trans (hlen ▸ Nat.le_max_left _ _), h.size_lt⟩

theorem memcpyTo_spec (h : buffer.Sound) (hle : offset + bytes.length ≤ buffer.size) :
    ∃ buffer', buffer.memcpyTo offset bytes = .ok buffer' ∧ buffer'.Sound ∧
      buffer'.contents = overwrite buffer.contents offset bytes := by
  rcases buffer with ⟨_ | header⟩
  · obtain rfl : bytes = [] := List.eq_nil_of_length_eq_zero (by
      change offset + bytes.length ≤ 0 at hle
      omega)
    exact ⟨_, rfl, h, overwrite_nil.symm⟩
  · have hsound := h header rfl
    change offset + bytes.length ≤ header.size at hle
    have hmemory := hle.trans hsound.size_le
    by_cases hsize : header.size = 0
    · obtain rfl : bytes = [] := List.eq_nil_of_length_eq_zero (by omega)
      exact ⟨⟨some header⟩, by simp [memcpyTo, data_of_sound hsound, hsize], h,
        overwrite_nil.symm⟩
    · refine ⟨_, memcpyTo_memory hsound hsize hmemory, ?_, take_overwrite (by omega) hle⟩
      rintro _ ⟨⟩
      exact sound_overwrite hsound hmemory

/-- Storing keeps the size, whatever the storage holds. -/
theorem memcpyTo_size {buffer' : Buffer B} (h : buffer.memcpyTo offset bytes = .ok buffer') :
    buffer'.size = buffer.size := by
  rw [memcpyTo] at h
  split at h
  · cases h
  · split at h
    · obtain rfl := Except.ok.inj h
      rfl
    · cases h
  · split at h
    · obtain rfl := Except.ok.inj h
      rcases buffer with ⟨_ | header⟩ <;> rfl
    · cases h

/-- The size is the new one as 32 bits hold it, whatever the storage was. -/
theorem resize_size {junk : ℕ → B} {buffer' : Buffer B} (h : buffer.resize junk n = .ok buffer') :
    buffer'.size = n % 2 ^ 32 := by
  rcases buffer with ⟨_ | header⟩
  · obtain rfl := Except.ok.inj h
    rfl
  · simp only [resize, reallocate] at h
    split at h
    · cases h
    · split at h
      · obtain rfl := Except.ok.inj h
        rfl
      · split at h
        · cases h
        · exact memcpyTo_size h

theorem append_size {junk : ℕ → B} {buffer' : Buffer B} {ptr : ℕ}
    (h : buffer.append junk count = .ok (buffer', ptr)) :
    buffer'.size = (buffer.size + count) % 2 ^ 32 := by
  rw [append] at h
  split at h
  · cases h
  · next hresize =>
      split at h
      · cases h
      · obtain ⟨rfl, rfl⟩ := Prod.mk.inj (Except.ok.inj h)
        exact resize_size hresize

/-- The bytes there are go to the beginning of a new storage that has room for them. -/
theorem memcpyTo_allocate (junk : ℕ → B) (hpos : 0 < n) (hn : n < 2 ^ 32)
    (hroom : bytes.length ≤ (allocate junk n).memory.length) :
    ∃ buffer' tail, memcpyTo ⟨some (allocate junk n)⟩ 0 bytes = .ok buffer' ∧
      buffer'.contents = bytes.take n ++ tail ∧
      ∃ memory, buffer' = ⟨some { allocate junk n with memory := memory }⟩ ∧
        Block.Sound { allocate junk n with memory := memory } := by
  obtain ⟨hsound, -⟩ := allocate_sound junk (hn.trans (by decide))
  have hsize := allocate_size junk hn
  have hroom' : 0 + bytes.length ≤ (allocate junk n).memory.length := by omega
  refine ⟨_, ((allocate junk n).memory.drop bytes.length).take (n - bytes.length),
    memcpyTo_memory hsound (by omega) hroom', ?_, _, rfl, sound_overwrite hsound hroom'⟩
  simp only [contents, Option.elim_some, hsize]
  rw [overwrite, List.take_zero, List.nil_append, Nat.zero_add, List.take_append]

/-- The bytes before both sizes stay.  A new storage is made for the bytes there are if the capacity
is less than the new size: it has to have room for them. -/
theorem reallocate_spec (junk : ℕ → B) {header : Block B} (h : header.Sound) (hn : n < 2 ^ 32)
    (hroom : n ≤ header.capacity ∨ header.size ≤ (allocate junk n).memory.length) :
    ∃ buffer' tail, reallocate junk ⟨some header⟩ n = .ok buffer' ∧ buffer'.Sound ∧
      buffer'.size = n ∧ buffer'.contents = (contents ⟨some header⟩).take n ++ tail := by
  have hcapacity := Nat.ne_of_gt h.capacity_pos
  have hmod : n % 2 ^ 32 = n := Nat.mod_eq_of_lt hn
  by_cases hle : n ≤ header.capacity
  · -- the storage stays: what its memory holds behind the old size becomes visible
    refine ⟨⟨some { header with size := n }⟩, (header.memory.take n).drop header.size, ?_, ?_,
      rfl, ?_⟩
    · simp only [reallocate, hcapacity, hle, if_false, if_true, hmod]
    · rintro _ ⟨⟩
      exact ⟨h.capacity_pos, h.capacity_le, hle.trans h.capacity_le, hn⟩
    · have hcut := List.take_append_drop header.size (header.memory.take n)
      rw [List.take_take, Nat.min_comm, ← List.take_take] at hcut
      exact hcut.symm
  · have hsound : Sound (⟨some header⟩ : Buffer B) := by rintro _ ⟨⟩; exact h
    have hlen : (contents ⟨some header⟩).length = header.size := length_contents hsound
    have hfrom := memcpyFrom_spec hsound (Nat.le_of_eq (Nat.zero_add header.size))
    rw [List.drop_zero, List.take_of_length_le (Nat.le_of_eq hlen)] at hfrom
    have hfits : (contents ⟨some header⟩).length ≤ (allocate junk n).memory.length := by
      rw [hlen]
      exact hroom.resolve_left hle
    obtain ⟨buffer', tail, hto, hcontents, memory, rfl, hnew⟩ :=
      memcpyTo_allocate junk (Nat.lt_of_le_of_lt (Nat.zero_le _) (Nat.lt_of_not_le hle)) hn hfits
    refine ⟨_, tail, ?_, ?_, (memcpyTo_size hto).trans (allocate_size junk hn), hcontents⟩
    · simp only [reallocate, hcapacity, hle, if_false, hfrom, hto]
    · rintro _ ⟨⟩
      exact hnew

theorem resize_spec (junk : ℕ → B) (h : buffer.Sound) (hn : n < 2 ^ 32)
    (hroom : ∀ header ∈ buffer.storage,
      n ≤ header.capacity ∨ header.size ≤ (allocate junk n).memory.length) :
    ∃ buffer' tail, buffer.resize junk n = .ok buffer' ∧ buffer'.Sound ∧ buffer'.size = n ∧
      buffer'.contents = buffer.contents.take n ++ tail := by
  rcases buffer with ⟨_ | header⟩
  · obtain ⟨hnew, -⟩ := allocate_sound junk (hn.trans (by decide))
    have hnothing : (contents (⟨none⟩ : Buffer B)).take n = [] := List.take_nil
    refine ⟨⟨some (allocate junk n)⟩, contents ⟨some (allocate junk n)⟩, rfl, ?_,
      allocate_size junk hn, ?_⟩
    · rintro _ ⟨⟩
      exact hnew
    · rw [hnothing, List.nil_append]
  · exact reallocate_spec junk (h header rfl) hn (hroom header rfl)

/-- All bytes stay, and the pointer is behind them. -/
theorem append_spec (junk : ℕ → B) (h : buffer.Sound) (hn : buffer.size + count < 2 ^ 32) :
    ∃ buffer' tail, buffer.append junk count = .ok (buffer', buffer.size) ∧ buffer'.Sound ∧
      buffer'.contents = buffer.contents ++ tail ∧ tail.length = count := by
  have hroom : ∀ header ∈ buffer.storage, buffer.size + count ≤ header.capacity ∨
      header.size ≤ (allocate junk (buffer.size + count)).memory.length := by
    intro header hheader
    obtain ⟨-, hle⟩ := allocate_sound junk (hn.trans (by decide))
    have hsize : buffer.size = header.size := by rw [size, hheader]; rfl
    exact .inr (by omega)
  obtain ⟨buffer', tail, hresize, hsound, hsize, hcontents⟩ := resize_spec junk h hn hroom
  have hall : buffer.contents.take (buffer.size + count) = buffer.contents :=
    List.take_of_length_le (length_contents h ▸ Nat.le_add_right _ _)
  rw [hall] at hcontents
  refine ⟨buffer', tail, ?_, hsound, hcontents, ?_⟩
  · obtain ⟨ptr, hdata⟩ : ∃ ptr, buffer'.data = .ok ptr := by
      rcases buffer' with ⟨_ | header⟩
      · exact ⟨none, rfl⟩
      · exact ⟨_, data_of_sound (hsound header rfl)⟩
    simp only [append, hresize, hdata]
  · have hlen := congrArg List.length hcontents
    rw [List.length_append, length_contents hsound, length_contents h, hsize] at hlen
    omega

end Buffer

end MyEngine.Memory
