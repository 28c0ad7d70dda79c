import Mathlib.Data.Nat.Bitwise
import MyEngine.Memory.HostMemory
import MyEngine.Support.Alignment

/-!
# Rtti — ClassStorage

`allocateStateAndInstance` of `rtti_impl.cpp`: the shared state and the instance behind it, in
memory of an allocator or of the caller.

* `alignof_of_isPowerOf2`: what `isPowerOf2` says of an alignment.
* `placed_iff_size_le`: both are aligned, and they are in their memory if it is large enough.
* `placed_iff`: the memory of an allocator is large enough unless its size does not go into 64
  bits.
* `placed_inplace`: that of a caller is.
-/

namespace MyEngine.Rtti

open Support Alignment

/-- An alignment of 64 bits. -/
structure Alignof (align : ℕ) : Prop where
  pow : align.isPowerOfTwo
  lt : align < 2 ^ 64

theorem alignof_of_isPowerOf2 {align : ℕ} (hpos : 0 < align) (hlt : align < 2 ^ 64)
    (h : Memory.isPowerOf2 align) : Alignof align := by
  refine ⟨(Nat.and_sub_one_eq_zero_iff_isPowerOfTwo hpos.ne').1 ?_, hlt⟩
  exact of_decide_eq_true h

namespace Alignof

variable {align align' : ℕ}

theorem pos (h : Alignof align) : 0 < align := Nat.pos_of_isPowerOfTwo h.pow

theorem dvd (h : Alignof align) : align ∣ 2 ^ 64 := dvd_of_le h.pow ⟨64, rfl⟩ h.lt.le

/-- No alignment is larger than half of the address space. -/
theorem le (h : Alignof align) : align ≤ 2 ^ 63 := by
  obtain ⟨k, rfl⟩ := h.pow
  have hk := (Nat.pow_lt_pow_iff_right Nat.one_lt_two).1 h.lt
  exact Nat.pow_le_pow_right Nat.two_pos (Nat.le_of_lt_succ hk)

/-- An alignment that a class may have beside one that its storage has. -/
theorem dvd_or_dvd (h : Alignof align) (h' : Alignof align')
    (hle : align ≤ align' ∨ align % align' = 0) : align ∣ align' ∨ align' ∣ align := by
  rcases hle with hle | hmod
  · exact .inl (dvd_of_le h.pow h'.pow hle)
  · exact .inr (Nat.dvd_of_mod_eq_zero hmod)

end Alignof

/-- `sizeof(SharedState)` and `alignof(SharedState)`. -/
structure StateLayout where
  size : ℕ
  align : ℕ
  alignof : Alignof align

/-- `SharedStateSize`. -/
def StateLayout.sharedStateSize (layout : StateLayout) : ℕ := roundUp layout.align layout.size

namespace ClassStorage

/-- Where the state and the instance are, in which memory. -/
structure Storage where
  block : Span
  statePtr : ℕ
  instanceMemPtr : ℕ
  deriving DecidableEq, Repr

/-- `StorageSize`. -/
def storageSize (layout : StateLayout) (instanceSize instanceAlignment : ℕ) : ℕ :=
  (layout.sharedStateSize + instanceSize + instanceAlignment) % 2 ^ 64

/-- `allocateStateAndInstance`, with what the allocator returns if there is no memory of the
caller. -/
def allocateStateAndInstance (layout : StateLayout) (inplaceMemBlock : Option Span)
    (answer instanceSize instanceAlignment : ℕ) : Storage :=
  let block := inplaceMemBlock.getD ⟨answer, storageSize layout instanceSize instanceAlignment⟩
  let statePtr := block.base
  let instanceMemPtr := statePtr + layout.sharedStateSize
  let alignmentOffset := instanceMemPtr % instanceAlignment
  if 0 < alignmentOffset then
    let offsetGap := instanceAlignment - alignmentOffset
    ⟨block, statePtr + offsetGap, instanceMemPtr + offsetGap⟩
  else
    ⟨block, statePtr, instanceMemPtr⟩

/-- Both are aligned and in the memory. -/
structure Placed (layout : StateLayout) (instanceSize instanceAlignment : ℕ) (r : Storage) :
    Prop where
  state : layout.align ∣ r.statePtr
  instanceMem : instanceAlignment ∣ r.instanceMemPtr
  within : (⟨r.statePtr, layout.size⟩ : Span).Within r.block ∧
    (⟨r.instanceMemPtr, instanceSize⟩ : Span).Within r.block

section Storage
variable {layout : StateLayout} {inplaceMemBlock : Option Span}
  {answer instanceSize instanceAlignment : ℕ}

/-- The state and the instance are moved up together. -/
theorem allocateStateAndInstance_eq {block : Span} {offsetGap : ℕ}
    (hblock : block = inplaceMemBlock.getD
      ⟨answer, storageSize layout instanceSize instanceAlignment⟩)
    (hgap : offsetGap = gap instanceAlignment (block.base + layout.sharedStateSize)) :
    allocateStateAndInstance layout inplaceMemBlock answer instanceSize instanceAlignment =
      ⟨block, block.base + offsetGap, block.base + offsetGap + layout.sharedStateSize⟩ := by
  subst hblock hgap
  simp only [allocateStateAndInstance, gap]
  split
  · rw [Nat.add_right_comm]
  · rfl

theorem placed_iff_size_le {block : Span}
    (hblock : block = inplaceMemBlock.getD
      ⟨answer, storageSize layout instanceSize instanceAlignment⟩)
    (halign : Alignof instanceAlignment)
    (hclass : instanceAlignment ≤ layout.align ∨ instanceAlignment % layout.align = 0)
    (hbase : layout.align ∣ block.base) :
    Placed layout instanceSize instanceAlignment
        (allocateStateAndInstance layout inplaceMemBlock answer instanceSize instanceAlignment) ↔
      layout.sharedStateSize + instanceSize +
        gap instanceAlignment (block.base + layout.sharedStateSize) ≤ block.size := by
  rw [allocateStateAndInstance_eq hblock rfl]
  have hroom : layout.size ≤ layout.sharedStateSize := le_roundUp layout.alignof.pos
  constructor
  · intro h
    exact (within_iff hroom).1 h.within
  · intro hle
    refine ⟨?_, ?_, (within_iff hroom).2 hle⟩
    · have hinstance : layout.align ∣ block.base + layout.sharedStateSize :=
        Nat.dvd_add hbase dvd_roundUp
      exact Nat.dvd_add hbase (dvd_gap hinstance (halign.dvd_or_dvd layout.alignof hclass))
    · simp only
      rw [Nat.add_right_comm]
      exact dvd_add_gap halign.pos

/-- The size is large enough unless the sum does not go into 64 bits. -/
theorem le_storageSize_iff (halign : Alignof instanceAlignment) {x : ℕ} :
    layout.sharedStateSize + instanceSize + gap instanceAlignment x ≤
        storageSize layout instanceSize instanceAlignment ↔
      layout.sharedStateSize + instanceSize + instanceAlignment < 2 ^ 64 := by
  have hgap : gap instanceAlignment x < instanceAlignment := gap_lt halign.pos
  have hlt := halign.lt
  unfold storageSize
  omega

theorem placed_iff (halign : Alignof instanceAlignment)
    (hclass : instanceAlignment ≤ layout.align ∨ instanceAlignment % layout.align = 0)
    (hanswer : layout.align ∣ answer) :
    Placed layout instanceSize instanceAlignment
        (allocateStateAndInstance layout none answer instanceSize instanceAlignment) ↔
      layout.sharedStateSize + instanceSize + instanceAlignment < 2 ^ 64 := by
  have hblock : (⟨answer, storageSize layout instanceSize instanceAlignment⟩ : Span) =
      (none : Option Span).getD ⟨answer, storageSize layout instanceSize instanceAlignment⟩ := rfl
  rw [placed_iff_size_le hblock halign hclass hanswer]
  exact le_storageSize_iff halign

/-- The memory of a caller has the size of an `InstanceInplaceStorage` at least. -/
theorem placed_inplace {memBlock : Span} (halign : Alignof instanceAlignment)
    (hclass : instanceAlignment ≤ layout.align ∨ instanceAlignment % layout.align = 0)
    (hbase : layout.align ∣ memBlock.base)
    (hsize : layout.sharedStateSize + instanceSize + instanceAlignment ≤ memBlock.size) :
    Placed layout instanceSize instanceAlignment
      (allocateStateAndInstance layout (some memBlock) answer instanceSize instanceAlignment) := by
  have hblock : memBlock = (some memBlock).getD
      ⟨answer, storageSize layout instanceSize instanceAlignment⟩ := rfl
  refine (placed_iff_size_le hblock halign hclass hbase).2 (le_trans ?_ hsize)
  exact Nat.add_le_add_left (gap_lt halign.pos).le _

end Storage

end ClassStorage

end MyEngine.Rtti
