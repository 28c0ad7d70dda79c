import MyEngine.Rtti.ClassStorage

/-!
# Async — CoreTaskStorage

Where `CoreTask::create` of `core_task_impl.cpp` puts a task and its data.

* `le_storageSize_iff`: the size that is allocated is large enough unless it does not go into 64
  bits.
* `placed_iff`: the tasks whose header and data are aligned and in their storage.
* `storage_placed_iff`: the same, and the instances of classes.
-/

namespace MyEngine.Async.CoreTaskStorage

open Support Alignment Rtti

/-- `alignof(std::max_align_t)`, `sizeof(CoreTaskImpl)` and `alignof(CoreTaskImpl)`. -/
structure TaskLayout where
  defaultAlign : ℕ
  size : ℕ
  align : ℕ
  defaultAlign_alignof : Alignof defaultAlign
  alignof : Alignof align
  align_le : align ≤ defaultAlign

namespace TaskLayout

variable (layout : TaskLayout)

/-- `CoreTaskSize`. -/
def coreTaskSize : ℕ := roundUp layout.defaultAlign layout.size

def getCoreTaskStorageSize (dataSize dataAlignment : ℕ) : ℕ :=
  (Memory.alignedSize ((layout.coreTaskSize + dataSize) % 2 ^ 64)
    (max layout.defaultAlign dataAlignment) + dataAlignment) % 2 ^ 64

/-- The alignments of the data that `create` asserts. -/
structure Accepts (dataAlignment : ℕ) : Prop where
  pos : 0 < dataAlignment
  lt : dataAlignment < 2 ^ 64
  pow : Memory.isPowerOf2 dataAlignment
  multiple : dataAlignment < layout.defaultAlign ∨ dataAlignment % layout.defaultAlign = 0

instance {dataAlignment : ℕ} : Decidable (layout.Accepts dataAlignment) :=
  decidable_of_iff (0 < dataAlignment ∧ dataAlignment < 2 ^ 64 ∧ Memory.isPowerOf2 dataAlignment ∧
      (dataAlignment < layout.defaultAlign ∨ dataAlignment % layout.defaultAlign = 0))
    ⟨fun ⟨h₁, h₂, h₃, h₄⟩ => ⟨h₁, h₂, h₃, h₄⟩, fun h => ⟨h.pos, h.lt, h.pow, h.multiple⟩⟩

end TaskLayout

/-- The memory that is allocated, and the task in it. -/
structure Storage where
  allocated : Span
  placementStorage : ℕ
  deriving DecidableEq, Repr

/-- `CoreTask::create`, with what the allocator returns. -/
def create (layout : TaskLayout) (allocatedStorage dataSize dataAlignment : ℕ) : Storage :=
  let allocated := ⟨allocatedStorage, layout.getCoreTaskStorageSize dataSize dataAlignment⟩
  let clientData := allocatedStorage + layout.coreTaskSize
  let alignmentOffset := clientData % dataAlignment
  if 0 < alignmentOffset then
    let offsetGap := dataAlignment - alignmentOffset
    ⟨allocated, allocatedStorage + offsetGap⟩
  else
    ⟨allocated, allocatedStorage⟩

/-- `CoreTaskImpl::getData`. -/
def Storage.getData (layout : TaskLayout) (r : Storage) : ℕ :=
  r.placementStorage + layout.coreTaskSize

/-- The task and its data are aligned and in the storage. -/
structure Placed (layout : TaskLayout) (dataSize dataAlignment : ℕ) (r : Storage) : Prop where
  task : layout.align ∣ r.placementStorage
  data : dataAlignment ∣ r.getData layout
  within : (⟨r.placementStorage, layout.size⟩ : Span).Within r.allocated ∧
    (⟨r.getData layout, dataSize⟩ : Span).Within r.allocated

section Task
variable {layout : TaskLayout} {allocatedStorage dataSize dataAlignment x : ℕ}

theorem create_eq {offsetGap : ℕ}
    (hgap : offsetGap = gap dataAlignment (allocatedStorage + layout.coreTaskSize)) :
    create layout allocatedStorage dataSize dataAlignment =
      ⟨⟨allocatedStorage, layout.getCoreTaskStorageSize dataSize dataAlignment⟩,
        allocatedStorage + offsetGap⟩ := by
  subst hgap
  simp only [create, gap]
  split <;> rfl

/-- A size is rounded up, unless there is no multiple of the alignment behind it. -/
theorem alignedSize_eq {align : ℕ} (h : Alignof align) (hx : x < 2 ^ 64) :
    Memory.alignedSize x align = roundUp align x % 2 ^ 64 := by
  have hle : roundUp align x ≤ 2 ^ 64 := roundUp_le hx.le h.dvd
  have hpos := h.pos
  have halign := h.lt
  rcases hle.lt_or_eq with hlt | heq
  · -- a multiple below the largest one leaves room for the alignment
    obtain ⟨q, hq⟩ := h.dvd
    obtain ⟨r, hr⟩ : align ∣ roundUp align x := dvd_roundUp
    have hrq : r + 1 ≤ q := by
      rw [hr, hq] at hlt
      exact Nat.lt_of_mul_lt_mul_left hlt
    have hroom : roundUp align x + align ≤ 2 ^ 64 := by
      rw [hr, hq, ← Nat.mul_succ]
      exact Nat.mul_le_mul_left _ hrq
    have hxr := le_roundUp (x := x) hpos
    rw [Nat.mod_eq_of_lt hlt, Memory.alignedSize, Nat.mod_eq_of_lt, roundUp]
    omega
  · have hbelow := roundUp_lt (x := x) hpos
    have hmod : (x + align - 1) % 2 ^ 64 = x + align - 1 - 2 ^ 64 := by
      rw [Nat.mod_eq_sub_mod, Nat.mod_eq_of_lt] <;> omega
    rw [heq, Nat.mod_self, Memory.alignedSize, hmod, Nat.div_eq_of_lt, Nat.zero_mul]
    omega

/-- The size is large enough unless the rounded one does not go into 64 bits with the alignment. -/
theorem le_storageSize_iff (halign : Alignof dataAlignment) :
    layout.coreTaskSize + dataSize + gap dataAlignment x ≤
        layout.getCoreTaskStorageSize dataSize dataAlignment ↔
      roundUp (max layout.defaultAlign dataAlignment) (layout.coreTaskSize + dataSize) +
        dataAlignment < 2 ^ 64 := by
  have hmax : Alignof (max layout.defaultAlign dataAlignment) := by
    rcases max_choice layout.defaultAlign dataAlignment with h | h
    · exact h.symm ▸ layout.defaultAlign_alignof
    · exact h.symm ▸ halign
  have hgap : gap dataAlignment x < dataAlignment := gap_lt halign.pos
  have hle := le_roundUp (x := layout.coreTaskSize + dataSize) hmax.pos
  have hlt := roundUp_lt (x := layout.coreTaskSize + dataSize) hmax.pos
  have hhalf := halign.le
  have hhalf' := hmax.le
  unfold TaskLayout.getCoreTaskStorageSize
  generalize max layout.defaultAlign dataAlignment = align at *
  generalize hsize : layout.coreTaskSize + dataSize = size at *
  rcases Nat.lt_or_ge size (2 ^ 64) with hfits | hfits
  · rw [Nat.mod_eq_of_lt hfits, alignedSize_eq hmax hfits]
    have hbound : roundUp align size ≤ 2 ^ 64 := roundUp_le hfits.le hmax.dvd
    omega
  · have hmod : (Memory.alignedSize (size % 2 ^ 64) align + dataAlignment) % 2 ^ 64 < 2 ^ 64 :=
      Nat.mod_lt _ (Nat.two_pow_pos 64)
    omega

theorem placed_iff (haccepts : layout.Accepts dataAlignment)
    (hstorage : layout.defaultAlign ∣ allocatedStorage) :
    Placed layout dataSize dataAlignment (create layout allocatedStorage dataSize dataAlignment) ↔
      roundUp (max layout.defaultAlign dataAlignment) (layout.coreTaskSize + dataSize) +
        dataAlignment < 2 ^ 64 := by
  have halign : Alignof dataAlignment :=
    alignof_of_isPowerOf2 haccepts.pos haccepts.lt haccepts.pow
  have hroom : layout.size ≤ layout.coreTaskSize := le_roundUp layout.defaultAlign_alignof.pos
  rw [create_eq rfl, ← le_storageSize_iff halign]
  constructor
  · intro h
    exact (within_iff hroom).1 h.within
  · intro hle
    refine ⟨?_, ?_, (within_iff hroom).2 hle⟩
    · have hdata : layout.defaultAlign ∣ allocatedStorage + layout.coreTaskSize :=
        Nat.dvd_add hstorage dvd_roundUp
      have hgap := dvd_gap hdata
        (halign.dvd_or_dvd layout.defaultAlign_alignof (haccepts.multiple.imp_left Nat.le_of_lt))
      exact (dvd_of_le layout.alignof.pow layout.defaultAlign_alignof.pow layout.align_le).trans
        (Nat.dvd_add hstorage hgap)
    · simp only [Storage.getData]
      rw [Nat.add_right_comm]
      exact dvd_add_gap halign.pos

end Task

section Instances
variable {layout : TaskLayout} {stateLayout : StateLayout}
  {allocatedStorage dataSize dataAlignment answer instanceSize instanceAlignment : ℕ}

/-- **Tasks and instances** are aligned and in the storage that is allocated for them when its size
goes into 64 bits, and in no other case; instances in the memory of a caller always are. -/
theorem storage_placed_iff (haccepts : layout.Accepts dataAlignment)
    (hstorage : layout.defaultAlign ∣ allocatedStorage) (halign : Alignof instanceAlignment)
    (hclass : instanceAlignment ≤ stateLayout.align ∨ instanceAlignment % stateLayout.align = 0)
    (hanswer : stateLayout.align ∣ answer) :
    (Placed layout dataSize dataAlignment
        (create layout allocatedStorage dataSize dataAlignment) ↔
      roundUp (max layout.defaultAlign dataAlignment) (layout.coreTaskSize + dataSize) +
        dataAlignment < 2 ^ 64) ∧
    (ClassStorage.Placed stateLayout instanceSize instanceAlignment
        (ClassStorage.allocateStateAndInstance stateLayout none answer instanceSize
          instanceAlignment) ↔
      stateLayout.sharedStateSize + instanceSize + instanceAlignment < 2 ^ 64) ∧
    ∀ memBlock : Span, stateLayout.align ∣ memBlock.base →
      stateLayout.sharedStateSize + instanceSize + instanceAlignment ≤ memBlock.size →
      ClassStorage.Placed stateLayout instanceSize instanceAlignment
        (ClassStorage.allocateStateAndInstance stateLayout (some memBlock) answer instanceSize
          instanceAlignment) := by
  refine ⟨placed_iff haccepts hstorage, ClassStorage.placed_iff halign hclass hanswer, ?_⟩
  intro memBlock hbase hsize
  exact ClassStorage.placed_inplace halign hclass hbase hsize

/-- The sizes and alignments of a 64-bit build. -/
def layout64 : TaskLayout where
  defaultAlign := 16
  size := 200
  align := 8
  defaultAlign_alignof := ⟨⟨4, rfl⟩, by decide⟩
  alignof := ⟨⟨3, rfl⟩, by decide⟩
  align_le := by decide

def stateLayout64 : StateLayout where
  size := 40
  align := 8
  alignof := ⟨⟨3, rfl⟩, by decide⟩

/-- Data and an instance of an alignment that their storage does not have. -/
theorem storage_placed_cacheLine :
    Placed layout64 24 64 (create layout64 4112 24 64) ∧
      ClassStorage.Placed stateLayout64 100 64
        (ClassStorage.allocateStateAndInstance stateLayout64 none 4104 100 64) := by
  have haccepts : layout64.Accepts 64 := by decide
  have halign : Alignof 64 := ⟨⟨6, rfl⟩, by decide⟩
  obtain ⟨htask, hinstance, -⟩ := storage_placed_iff haccepts ⟨257, rfl⟩ halign
    (Or.inr rfl) (⟨513, rfl⟩ : stateLayout64.align ∣ 4104)
  exact ⟨htask.2 (by decide), hinstance.2 (by decide)⟩

/-- The size of the data brings the sum back to zero, and nothing is left of the storage but the
room for the gap. -/
theorem not_placed_wrapped :
    (create layout64 4096 (2 ^ 64 - 208) 16).allocated = ⟨4096, 16⟩ ∧
      ¬ Placed layout64 (2 ^ 64 - 208) 16 (create layout64 4096 (2 ^ 64 - 208) 16) := by
  refine ⟨rfl, fun h => ?_⟩
  exact absurd h.within.1 (by decide)

end Instances

end MyEngine.Async.CoreTaskStorage
