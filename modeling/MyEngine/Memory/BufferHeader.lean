import Mathlib.Algebra.Ring.Nat
import MyEngine.Memory.Buffer

/-!
# Memory — BufferHeader

What `BufferStorage::allocate` writes into a header for a size of 64 bits, and what the header tells
of its storage later.

* `allocateHeader`: the header, with 64-bit sizes and 32-bit members.
* `Reused`: what the header can be when the storage is released or reallocated.
* `described_iff`: it describes its storage exactly where the capacity fits in 32 bits.
-/

namespace MyEngine.Memory

/-- The header of `allocate`.  The capacity is a `size_t` before it is cast. -/
def allocateHeader (clientSize : ℕ) : Storage where
  capacity := (storageSize clientSize + (2 ^ 64 - headerSize)) % 2 ^ 64 % 2 ^ 32
  size := clientSize % 2 ^ 32
  allocator := getBufferAllocator (storageSize clientSize)

/-- `getBufferAllocator` of a header. -/
def Storage.getBufferAllocator (header : Storage) : Option ℕ :=
  Memory.getBufferAllocator (headerSize + header.capacity)

/-- `reallocate`: the storage that there is now, and the old one if it has been freed. -/
def Storage.reallocate (header : Storage) (newSize : ℕ) : Storage × Option Storage :=
  if newSize ≤ header.capacity then ({ header with size := newSize % 2 ^ 32 }, none)
  else
    (allocateHeader newSize,
      some { header with freedTo := header.freedTo ++ [header.getBufferAllocator] })

/-- `release` of the only reference. -/
def Storage.release (header : Storage) : Storage :=
  { header with refs := 0, freedTo := header.freedTo ++ [header.getBufferAllocator] }

/-- The header after calls of `reallocate` that have kept its storage. -/
inductive Reused (header : Storage) : Storage → Prop where
  | refl : Reused header header
  | reallocate {header' : Storage} {newSize : ℕ} (h : Reused header header')
      (hkept : (header'.reallocate newSize).2 = none) :
      Reused header (header'.reallocate newSize).1

/-- A storage made for `n` bytes has this header. -/
structure Described (n : ℕ) (header : Storage) : Prop where
  size_eq : header.size = n
  le_capacity : n ≤ header.capacity
  capacity_eq : headerSize + header.capacity = storageSize n
  released : ∀ header', Reused header header' → header'.release.freedTo = [header.allocator]
  reallocated : ∀ header', Reused header header' → ∀ newSize, ∀ freed ∈
    (header'.reallocate newSize).2, freed.freedTo = [header.allocator]

/-! ### The sizes -/

/-- The storage is what it is with unbounded sizes, and a multiple of the granularity. -/
theorem storageSize_bounds {n : ℕ} (h : n < 2 ^ 63) :
    headerSize + n ≤ storageSize n ∧ storageSize n < headerSize + n + 1024 ∧
      storageSize n % 128 = 0 := by
  simp only [storageSize, alignedSize, headerSize, bigAllocationThreshold, allocationGranularity,
    bigAllocationGranularity]
  by_cases hbig : n < 4096
  · simp only [hbig, if_true]
    omega
  · simp only [hbig, if_false]
    omega

theorem storageSize_big {n : ℕ} (h : 4096 ≤ n) : storageSize n % 1024 = 0 := by
  simp only [storageSize, alignedSize, bigAllocationThreshold, bigAllocationGranularity,
    Nat.not_lt.2 h, if_false]
  exact Nat.mul_mod_left _ _

theorem capacity_of_le {n : ℕ} (h : n ≤ 2 ^ 32 - headerSize) :
    headerSize + (allocateHeader n).capacity = storageSize n := by
  have hbounds := storageSize_bounds (n := n) (by omega)
  have hbig := storageSize_big (n := n)
  simp only [headerSize] at h hbounds
  simp only [allocateHeader, headerSize]
  omega

theorem capacity_of_gt {n : ℕ} (h : 2 ^ 32 - headerSize < n) (hn : n < 2 ^ 32) :
    (allocateHeader n).capacity = 1008 := by
  have hbounds := storageSize_bounds (n := n) (by omega)
  have hbig := storageSize_big (n := n)
  simp only [headerSize] at h hbounds
  simp only [allocateHeader, headerSize]
  omega

/-- Only sizes near 2 ^ 64 leave nothing behind the header. -/
theorem capacity_eq {n : ℕ} (h : n < 2 ^ 63) :
    (storageSize n - headerSize) % 2 ^ 32 = (allocateHeader n).capacity := by
  have hbounds := storageSize_bounds h
  simp only [allocateHeader, headerSize] at hbounds ⊢
  omega

/-- The storages of the handles have these headers. -/
theorem allocate_storages (s : State) (kind : HandleKind) {n : ℕ} (h : n < 2 ^ 63) :
    (s.allocate kind n).storages = s.storages ++ [allocateHeader n] := by
  simp only [State.allocate, State.push, capacity_eq h]
  rfl

/-! ### The header of a storage -/

/-- Only the size changes while a storage is kept. -/
theorem Reused.eq {header header' : Storage} (h : Reused header header') :
    header' = { header with size := header'.size } := by
  induction h with
  | refl => rfl
  | @reallocate header' newSize _ hkept ih =>
      simp only [Storage.reallocate] at hkept ⊢
      split at hkept
      · next hle =>
          rw [if_pos hle]
          dsimp only
          rw [ih]
      · cases hkept

/-- Freed at last, the storage goes back to the allocator that its capacity stands for. -/
theorem freedTo_of_reused {header header' : Storage} (h : Reused header header')
    (hfreed : header.freedTo = []) :
    header'.freedTo ++ [header'.getBufferAllocator] = [header.getBufferAllocator] := by
  rw [h.eq]
  dsimp only
  rw [hfreed]
  rfl

theorem described_of_le {n : ℕ} (h : n ≤ 2 ^ 32 - headerSize) : Described n (allocateHeader n) := by
  have hcapacity := capacity_of_le h
  have hle : headerSize + n ≤ storageSize n :=
    (storageSize_bounds (Nat.lt_of_le_of_lt h (by decide))).1
  have hallocator : (allocateHeader n).getBufferAllocator = (allocateHeader n).allocator :=
    congrArg getBufferAllocator hcapacity
  refine ⟨Nat.mod_eq_of_lt (Nat.lt_of_le_of_lt h (by decide)), by omega, hcapacity, ?_, ?_⟩
  · intro header' hreused
    exact hallocator ▸ freedTo_of_reused hreused rfl
  · intro header' hreused newSize freed hfreed
    simp only [Storage.reallocate] at hfreed
    split at hfreed
    · cases hfreed
    · obtain rfl := Option.some.inj hfreed
      exact hallocator ▸ freedTo_of_reused hreused rfl

/-- **The header of a storage** for any size of 64 bits. -/
theorem described_iff (n : UInt64) :
    Described n.toNat (allocateHeader n.toNat) ↔ n.toNat ≤ 2 ^ 32 - headerSize := by
  constructor
  · intro h
    by_contra hgt
    have hsize : n.toNat % 2 ^ 32 = n.toNat := h.size_eq
    have hcapacity := capacity_of_gt (n := n.toNat) (by omega) (by omega)
    have hle := h.le_capacity
    simp only [headerSize] at hgt
    omega
  · exact described_of_le

/-- The capacity of the largest 32-bit size is that of a block of 1024 bytes. -/
theorem not_described_largest : ¬ Described (2 ^ 32 - 1) (allocateHeader (2 ^ 32 - 1)) := by
  intro h
  have hfreed := h.released _ .refl
  revert hfreed
  decide +kernel

end MyEngine.Memory
