import Mathlib.Logic.Function.Basic
import MyEngine.Memory.HostMemory
import MyEngine.Support.Runs

/-!
# Memory — RuntimeStack

`runtime_stack.cpp`: an allocation moves the offset of a stack up, and the guards of a thread set it
back when they are left.

* `RuntimeStackAllocator.alloc_spec`: what one allocation does to a stack, unless the offset passes
  the largest size.
* `Inv`: the guards' marks lie between the allocations made before a guard was entered and the
  offset.
* `Inv.step`: every call that keeps below the largest size keeps it.
* `leave_restores`: the offset is the one at which the guard was entered.
* `stacks_sound_iff`: the runs in which the live allocations are apart and committed.
-/

namespace MyEngine.Memory.RuntimeStack

open Support Runs

/-- `RuntimeStackAllocator::MaxAlignment`. -/
def maxAlignment : ℕ := 16

structure RuntimeStackAllocator where
  allocatedRegion : MemRegion := noMemory
  allocOffset : ℕ := 0
  deriving DecidableEq, Repr

namespace RuntimeStackAllocator

/-- What `alloc` asks the host for, if it does. -/
def allocationSize (size : ℕ) : ℕ := alignedSize size maxAlignment

/-- The region `alloc` goes on with, and what the host answers if it is asked.  Without memory, or
with some that is not adjacent, the program is stopped. -/
def commit (answer : MemRegion) (newAllocOffset : ℕ) (stack : RuntimeStackAllocator) :
    Option MemRegion :=
  if stack.allocatedRegion.base = 0 then
    if answer.base = 0 then none else some answer
  else if stack.allocatedRegion.size < newAllocOffset then
    if answer.base = 0 || !stack.allocatedRegion.isAdjacent answer then none
    else some (stack.allocatedRegion.append answer)
  else
    some stack.allocatedRegion

/-- `alloc`; a build with assertions stops where the pointer or the offset is not aligned. -/
def alloc (asserts : Bool) (answer : MemRegion) (size : ℕ) (stack : RuntimeStackAllocator) :
    Option (ℕ × RuntimeStackAllocator) :=
  let newAllocOffset := (stack.allocOffset + allocationSize size) % 2 ^ 64
  (stack.commit answer newAllocOffset).bind fun region =>
    let newPtr := region.base + stack.allocOffset
    if asserts && !(newPtr % maxAlignment = 0 && newAllocOffset % maxAlignment = 0) then none
    else some (newPtr, ⟨region, newAllocOffset⟩)

def restore (offset : ℕ) (stack : RuntimeStackAllocator) : RuntimeStackAllocator :=
  { stack with allocOffset := offset }

@[simp] theorem restore_allocatedRegion {stack : RuntimeStackAllocator} {offset : ℕ} :
    (stack.restore offset).allocatedRegion = stack.allocatedRegion := rfl

@[simp] theorem restore_allocOffset {stack : RuntimeStackAllocator} {offset : ℕ} :
    (stack.restore offset).allocOffset = offset := rfl

end RuntimeStackAllocator

/-- The stacks are numbered as they are made. -/
structure RuntimeStackGuard where
  allocator : Option ℕ := none
  top : ℕ := 0
  deriving DecidableEq, Repr

/-- An allocation, and the number of guards from the outermost one to the one whose stack it was
made on. -/
structure Allocation where
  stack : ℕ
  ptr : ℕ
  size : ℕ
  depth : ℕ
  deriving DecidableEq, Repr

def Allocation.span (x : Allocation) : Span := ⟨x.ptr, x.size⟩

/-- One thread.  `guards` is `s_currentStackGuard` and what `m_prev` leads to from it; `live`
remembers the allocations that have not been freed, and whose guard has not been left. -/
structure State where
  allocators : ℕ → RuntimeStackAllocator := fun _ => {}
  created : ℕ := 0
  guards : List RuntimeStackGuard := []
  live : List Allocation := []

namespace State

variable (s : State)

/-- What `getAllocator` returns; without one it is the default allocator. -/
def getAllocator : Option ℕ := s.guards.head?.bind RuntimeStackGuard.allocator

/-- `RuntimeStackGuard()`. -/
def enter : State :=
  { s with
    guards :=
      ⟨s.getAllocator, s.getAllocator.elim 0 fun i => (s.allocators i).allocOffset⟩ :: s.guards }

/-- `RuntimeStackGuard(Kilobyte)`. -/
def enterSized : State :=
  { s with
    allocators := Function.update s.allocators s.created {}
    created := s.created + 1
    guards := ⟨some s.created, RuntimeStackAllocator.allocOffset {}⟩ :: s.guards }

/-- `~RuntimeStackGuard()`.  The last guard of a stack takes it along. -/
def leave (guard : RuntimeStackGuard) (outer : List RuntimeStackGuard) : State :=
  match guard.allocator with
  | none   => { s with guards := outer }
  | some i =>
      { s with
        allocators := Function.update s.allocators i
          (if outer.any (·.allocator = some i) then (s.allocators i).restore guard.top else {})
        guards := outer
        live := s.live.filter fun x => !(x.stack = i && x.depth = outer.length + 1) }

/-- The number of guards from the outermost one to the innermost one of the stack. -/
def depth (i : ℕ) : ℕ := (s.guards.dropWhile (·.allocator ≠ some i)).length

/-- `RuntimeStackAllocator::alloc`, for a stack. -/
def alloc (asserts : Bool) (answer : MemRegion) (i size : ℕ) : Option State :=
  ((s.allocators i).alloc asserts answer size).map fun r =>
    { s with
      allocators := Function.update s.allocators i r.2
      live := ⟨i, r.1, size, s.depth i⟩ :: s.live }

/-- `free`, but for its assertions. -/
def free (i : ℕ) (ptr : Option ℕ) : State :=
  match ptr with
  | none     => s
  | some ptr => { s with live := s.live.eraseP fun x => x.stack = i && x.ptr = ptr }

end State

/-- A call, with what the host answers. -/
inductive Action where
  | enter
  | enterSized
  | leave
  | alloc (i size : ℕ) (answer : MemRegion)
  | realloc (i : ℕ) (oldPtr : Option ℕ) (size : ℕ) (answer : MemRegion)
  | free (i : ℕ) (ptr : Option ℕ)
  deriving DecidableEq, Repr

/-- `realloc` is `alloc`. -/
def step (asserts : Bool) (s : State) : Action → Option State
  | .enter                        => some s.enter
  | .enterSized                   => some s.enterSized
  | .leave                        =>
      match s.guards with
      | []             => none
      | guard :: outer => some (s.leave guard outer)
  | .alloc i size answer          => s.alloc asserts answer i size
  | .realloc i oldPtr size answer => (s.free i oldPtr).alloc asserts answer i size
  | .free i ptr                   => some (s.free i ptr)

/-! ### What is asked of the calls -/

/-- A guard of the stack has been entered and not left. -/
def State.InUse (s : State) (i : ℕ) : Prop := ∃ guard ∈ s.guards, guard.allocator = some i

/-- What the host of a stack answers: nothing, or pages of the size it is asked for, which are
adjacent to those it has given and apart from those of the other stacks. -/
def State.Answered (s : State) (i size : ℕ) (answer : MemRegion) : Prop :=
  answer = noMemory ∨ answer.IsPages ∧ RuntimeStackAllocator.allocationSize size ≤ answer.size ∧
    ((s.allocators i).allocatedRegion.base ≠ 0 →
      answer.base = (s.allocators i).allocatedRegion.stop) ∧
    ∀ j < s.created, j ≠ i → (s.allocators j).allocatedRegion.Apart answer

instance {s : State} {i : ℕ} : Decidable (s.InUse i) := inferInstanceAs (Decidable (∃ _ ∈ _, _))

instance {s : State} {i size : ℕ} {answer : MemRegion} : Decidable (s.Answered i size answer) :=
  inferInstanceAs (Decidable (_ ∨ _))

/-- An allocation is made on a stack that is in use, and the host answers. -/
def Allowable (s : State) : Action → Prop
  | .alloc i size answer | .realloc i _ size answer => s.InUse i ∧ s.Answered i size answer
  | .enter | .enterSized | .leave | .free _ _       => True

instance (s : State) : ∀ a, Decidable (Allowable s a)
  | .alloc i size answer | .realloc i _ size answer =>
      inferInstanceAs (Decidable (s.InUse i ∧ s.Answered i size answer))
  | .enter | .enterSized | .leave | .free _ _       => inferInstanceAs (Decidable True)

/-- The call comes back. -/
def Called (asserts : Bool) (s : State) (a : Action) : Prop :=
  Allowable s a ∧ (step asserts s a).isSome

instance {asserts : Bool} {s : State} {a : Action} : Decidable (Called asserts s a) :=
  inferInstanceAs (Decidable (_ ∧ _))

/-- The size goes on the stack: rounded up, it takes the offset to no more than the last multiple of
the alignment. -/
def Fits (s : State) : Action → Prop
  | .alloc i size _ | .realloc i _ size _     =>
      (s.allocators i).allocOffset + size ≤ 2 ^ 64 - maxAlignment
  | .enter | .enterSized | .leave | .free _ _ => True

instance (s : State) : ∀ a, Decidable (Fits s a)
  | .alloc i size _ | .realloc i _ size _     =>
      inferInstanceAs (Decidable ((s.allocators i).allocOffset + size ≤ 2 ^ 64 - maxAlignment))
  | .enter | .enterSized | .leave | .free _ _ => inferInstanceAs (Decidable True)

/-! ### One stack -/

namespace RuntimeStackAllocator

variable {asserts : Bool} {answer region : MemRegion} {stack : RuntimeStackAllocator} {size n : ℕ}

structure Inv (stack : RuntimeStackAllocator) : Prop where
  region : stack.allocatedRegion = noMemory ∨ stack.allocatedRegion.IsPages
  offset_le : stack.allocOffset ≤ stack.allocatedRegion.size
  aligned : maxAlignment ∣ stack.allocOffset

theorem inv_init : Inv {} := ⟨.inl rfl, Nat.le_refl _, Nat.dvd_zero _⟩

/-- The region `alloc` goes on with begins where it did, and has the addresses of the answer at
most. -/
structure Commits (stack : RuntimeStackAllocator) (answer region : MemRegion) : Prop where
  pages : region.IsPages
  base : stack.allocatedRegion.IsPages → region.base = stack.allocatedRegion.base
  mem : ∀ x ∈ region, x ∈ stack.allocatedRegion ∨ x ∈ answer

theorem commit_spec (h : stack.Inv)
    (ha : answer = noMemory ∨ answer.IsPages ∧ n ≤ answer.size ∧
      (stack.allocatedRegion.base ≠ 0 → answer.base = stack.allocatedRegion.stop))
    {newAllocOffset : ℕ} (hc : stack.commit answer newAllocOffset = some region) :
    Commits stack answer region ∧
      (newAllocOffset = stack.allocOffset + n → newAllocOffset ≤ region.size) := by
  obtain ⟨old, offset⟩ := stack
  have hle : offset ≤ old.size := h.offset_le
  unfold commit at hc
  split_ifs at hc with hnull hanswer hlt hanswer
  · obtain rfl := Option.some.inj hc
    rcases ha with rfl | ⟨hpages, hn, -⟩
    · exact absurd rfl hanswer
    · rcases h.region with rfl | hold
      · refine ⟨⟨hpages, fun hold => absurd hold.1 (Nat.lt_irrefl _), fun x hx => .inr hx⟩, ?_⟩
        rintro rfl
        obtain rfl : offset = 0 := Nat.le_zero.1 hle
        simpa using hn
      · exact absurd hnull hold.1.ne'
  · obtain rfl := Option.some.inj hc
    rcases ha with rfl | ⟨hpages, hn, hnext⟩
    · simp [noMemory] at hanswer
    · have hbase : answer.base = old.base + old.size := hnext hnull
      have hstop := hpages.2.2
      have hold := (h.region.resolve_left fun he => hnull (he ▸ rfl))
      have hpos : 0 < old.base := hold.1
      simp only [Span.stop, hbase] at hstop
      have hsize : old.append answer = ⟨old.base, old.size + answer.size⟩ := by
        rw [MemRegion.append, Nat.mod_eq_of_lt]
        omega
      rw [hsize]
      refine ⟨⟨⟨hpos, hold.2.1, ?_⟩, fun _ => rfl, fun x hx => ?_⟩, ?_⟩
      · simp only [Span.stop]
        omega
      · simp only [Span.mem_def, Span.stop] at hx ⊢
        omega
      · rintro rfl
        exact Nat.add_le_add hle hn
  · obtain rfl := Option.some.inj hc
    have hold := (h.region.resolve_left fun he => hnull (he ▸ rfl))
    exact ⟨⟨hold, fun _ => rfl, fun x hx => .inl hx⟩, fun _ => Nat.le_of_not_lt hlt⟩

theorem alloc_eq_some {r : ℕ × RuntimeStackAllocator}
    (h : stack.alloc asserts answer size = some r) : ∃ region,
      stack.commit answer ((stack.allocOffset + allocationSize size) % 2 ^ 64) = some region ∧
        r = (region.base + stack.allocOffset,
          ⟨region, (stack.allocOffset + allocationSize size) % 2 ^ 64⟩) := by
  obtain ⟨region, hc, h⟩ := Option.bind_eq_some_iff.1 h
  dsimp only at h
  split at h
  · cases h
  · exact ⟨region, hc, (Option.some.inj h).symm⟩

/-- A size that fits is rounded up to one that does not come back to the beginning. -/
theorem newAllocOffset_eq (h : stack.Inv)
    (hfits : stack.allocOffset + size ≤ 2 ^ 64 - maxAlignment) :
    (stack.allocOffset + allocationSize size) % 2 ^ 64 =
        stack.allocOffset + allocationSize size ∧ size ≤ allocationSize size := by
  have hle : size ≤ 2 ^ 64 - 16 := (Nat.le_add_left _ _).trans hfits
  have heq : allocationSize size = (size + 15) / 16 * 16 := alignedSize_eq hle
  obtain ⟨k, hk⟩ := h.aligned
  simp only [maxAlignment] at hk hfits
  constructor
  · exact Nat.mod_eq_of_lt (by omega)
  · omega

/-- What one allocation does to a stack on which it fits. -/
theorem alloc_spec {r : ℕ × RuntimeStackAllocator} (h : stack.Inv)
    (ha : answer = noMemory ∨ answer.IsPages ∧ allocationSize size ≤ answer.size ∧
      (stack.allocatedRegion.base ≠ 0 → answer.base = stack.allocatedRegion.stop))
    (hfits : stack.allocOffset + size ≤ 2 ^ 64 - maxAlignment)
    (hr : stack.alloc asserts answer size = some r) :
    r.2.Inv ∧ Commits stack answer r.2.allocatedRegion ∧
      r.1 = r.2.allocatedRegion.base + stack.allocOffset ∧
      stack.allocOffset + size ≤ r.2.allocOffset := by
  obtain ⟨region, hc, rfl⟩ := alloc_eq_some hr
  obtain ⟨heq, hle⟩ := newAllocOffset_eq h hfits
  rw [heq] at hc ⊢
  obtain ⟨hcommits, hoffset⟩ := commit_spec h ha hc
  refine ⟨⟨.inr hcommits.pages, hoffset rfl, ?_⟩, hcommits, rfl, Nat.add_le_add_left hle _⟩
  exact Nat.dvd_add h.aligned (dvd_alignedSize size)

end RuntimeStackAllocator

/-! ### The invariant -/

/-- The allocation is in the memory of the stack, below the offset. -/
structure Holds (stack : RuntimeStackAllocator) (x : Allocation) : Prop where
  pages : stack.allocatedRegion.IsPages
  base_le : stack.allocatedRegion.base ≤ x.ptr
  stop_le : x.span.stop ≤ stack.allocatedRegion.base + stack.allocOffset

/-- One of the guards of its stack was the innermost one of the stack when it was made. -/
structure Placed (s : State) (x : Allocation) : Prop where
  owner : ∃ guard outer, (guard :: outer) <:+ s.guards ∧ guard.allocator = some x.stack ∧
    x.depth = outer.length + 1
  holds : Holds (s.allocators x.stack) x

/-- The mark of a guard is between what was allocated before the guard was entered and the
offset. -/
structure Marked (s : State) (guard : RuntimeStackGuard) (outer : List RuntimeStackGuard) (i : ℕ) :
    Prop where
  top_le : guard.top ≤ (s.allocators i).allocOffset
  aligned : maxAlignment ∣ guard.top
  below : ∀ x ∈ s.live, x.stack = i → x.depth ≤ outer.length →
    x.span.stop ≤ (s.allocators i).allocatedRegion.base + guard.top

/-- The invariant. -/
structure Inv (s : State) : Prop where
  allocator : ∀ i, (s.allocators i).Inv
  fresh : ∀ i, s.created ≤ i → s.allocators i = {}
  apart : ∀ {i j}, i ≠ j →
    (s.allocators i).allocatedRegion.Apart (s.allocators j).allocatedRegion
  made : ∀ guard ∈ s.guards, ∀ i, guard.allocator = some i → i < s.created
  marked : ∀ {guard outer i}, (guard :: outer) <:+ s.guards → guard.allocator = some i →
    Marked s guard outer i
  tops : s.guards.Pairwise fun guard guard' => ∀ i, guard.allocator = some i →
    guard'.allocator = some i → guard'.top ≤ guard.top
  placed : ∀ x ∈ s.live, Placed s x
  liveApart : s.live.Pairwise fun x y => x.span.Apart y.span

section Steps
variable {asserts : Bool} {answer : MemRegion} {s s' : State} {guard : RuntimeStackGuard}
  {outer : List RuntimeStackGuard} {x : Allocation} {i size : ℕ}

theorem Holds.within {stack : RuntimeStackAllocator} (h : Holds stack x) (hi : stack.Inv) :
    x.span.Within stack.allocatedRegion :=
  ⟨h.base_le, h.stop_le.trans (Nat.add_le_add_left hi.offset_le _)⟩

theorem inv_init : Inv {} where
  allocator _ := RuntimeStackAllocator.inv_init
  fresh _ _ := rfl
  apart _ := MemRegion.noMemory_apart
  made _ hg := nomatch hg
  marked h := nomatch List.suffix_nil.1 h
  tops := .nil
  placed _ hx := nomatch hx
  liveApart := .nil

/-- What is freed is only forgotten. -/
theorem Inv.sublist (h : Inv s) {live : List Allocation} (hlive : live.Sublist s.live) :
    Inv { s with live := live } :=
  { h with
    marked := fun hg hi => { h.marked hg hi with
      below := fun x hx => (h.marked hg hi).below x (hlive.subset hx) }
    placed := fun x hx => { h.placed x (hlive.subset hx) with }
    liveApart := h.liveApart.sublist hlive }

theorem Inv.free (h : Inv s) (ptr : Option ℕ) : Inv (s.free i ptr) := by
  cases ptr with
  | none => exact h
  | some ptr => exact h.sublist List.eraseP_sublist

/-- A guard is entered, with the offset as its mark. -/
theorem Inv.push (h : Inv s) {created : ℕ} (hcreated : s.created ≤ created)
    (hguard : ∀ i, guard.allocator = some i →
      i < created ∧ guard.top = (s.allocators i).allocOffset) :
    Inv { s with created := created, guards := guard :: s.guards } where
  allocator := h.allocator
  fresh i hi := h.fresh i (hcreated.trans hi)
  apart := h.apart
  made := by
    rintro g (_ | ⟨_, hg⟩) i hi
    · exact (hguard i hi).1
    · exact (h.made g hg i hi).trans_le hcreated
  marked {g outer i} hg hi := by
    rcases List.suffix_cons_iff.1 hg with heq | hg
    · obtain ⟨rfl, rfl⟩ := List.cons.inj heq
      obtain ⟨-, htop⟩ := hguard i hi
      refine ⟨Nat.le_of_eq htop, htop ▸ (h.allocator i).aligned, fun x hx hstack _ => ?_⟩
      subst hstack
      exact htop ▸ (h.placed x hx).holds.stop_le
    · exact { h.marked hg hi with }
  tops := by
    refine List.pairwise_cons.2 ⟨fun g hg i hi hi' => ?_, h.tops⟩
    obtain ⟨pre, outer, heq⟩ := List.append_of_mem hg
    rw [(hguard i hi).2]
    have hsuffix : (g :: outer) <:+ s.guards := ⟨pre, heq.symm⟩
    exact (h.marked hsuffix hi').top_le
  placed x hx := by
    obtain ⟨g, outer, hg, hrest⟩ := (h.placed x hx).owner
    exact { h.placed x hx with
      owner := ⟨g, outer, hg.trans (List.suffix_cons _ _), hrest⟩ }
  liveApart := h.liveApart

theorem Inv.enter (h : Inv s) : Inv s.enter := by
  refine h.push (Nat.le_refl _) fun i hi => ⟨?_, ?_⟩
  · obtain ⟨g, hg, hi⟩ := Option.bind_eq_some_iff.1 hi
    exact h.made g (List.mem_of_mem_head? hg) i hi
  · change s.getAllocator = some i at hi
    simp only [hi, Option.elim_some]

theorem Inv.enterSized (h : Inv s) : Inv s.enterSized := by
  have hfresh : s.allocators s.created = {} := h.fresh _ (Nat.le_refl _)
  have heq : Function.update s.allocators s.created {} = s.allocators :=
    hfresh ▸ Function.update_eq_self _ _
  rw [State.enterSized, heq]
  refine h.push (Nat.le_succ _) fun i hi => ?_
  obtain rfl := Option.some.inj hi
  exact ⟨Nat.lt_succ_self _, hfresh ▸ rfl⟩

/-- An allocation is of the guard that is left, or of one below. -/
theorem Placed.owner_cases (h : Placed s x) (hguards : s.guards = guard :: outer) :
    guard.allocator = some x.stack ∧ x.depth = outer.length + 1 ∨
      ∃ g o, (g :: o) <:+ outer ∧ g.allocator = some x.stack ∧ x.depth = o.length + 1 := by
  obtain ⟨g, o, hg, hstack, hdepth⟩ := h.owner
  rw [hguards] at hg
  rcases List.suffix_cons_iff.1 hg with heq | hg
  · obtain ⟨rfl, rfl⟩ := List.cons.inj heq
    exact .inl ⟨hstack, hdepth⟩
  · exact .inr ⟨g, o, hg, hstack, hdepth⟩

/-- The current guard, on a stack that is set back to its mark as long as another guard needs it. -/
theorem Inv.pop (h : Inv s) (hguards : s.guards = guard :: outer) (hi : guard.allocator = some i)
    {stack : RuntimeStackAllocator} (hstack : stack.Inv)
    (hregion : ∀ x ∈ stack.allocatedRegion, x ∈ (s.allocators i).allocatedRegion)
    (hfresh : s.created ≤ i → stack = {})
    (hkept : ∀ g ∈ outer, g.allocator = some i → stack = (s.allocators i).restore guard.top) :
    Inv { s with
      allocators := Function.update s.allocators i stack
      guards := outer
      live := s.live.filter fun x => !(x.stack = i && x.depth = outer.length + 1) } := by
  have hself : (guard :: outer) <:+ s.guards := hguards.symm ▸ List.suffix_refl _
  have hsuffix : outer <:+ s.guards := (List.suffix_cons _ _).trans hself
  have hmark := h.marked hself hi
  have htops := h.tops
  rw [hguards] at htops
  obtain ⟨htop, htops⟩ := List.pairwise_cons.1 htops
  have hmem : ∀ j, ∀ x ∈ (Function.update s.allocators i stack j).allocatedRegion,
      x ∈ (s.allocators j).allocatedRegion := by
    refine (Function.forall_update_iff _ fun j (st : RuntimeStackAllocator) =>
      ∀ x ∈ st.allocatedRegion, x ∈ (s.allocators j).allocatedRegion).2 ⟨hregion, ?_⟩
    exact fun _ _ _ hx => hx
  constructor
  case allocator =>
    refine (Function.forall_update_iff _ fun _ (st : RuntimeStackAllocator) => st.Inv).2 ?_
    exact ⟨hstack, fun j _ => h.allocator j⟩
  case fresh =>
    refine (Function.forall_update_iff _ fun j (st : RuntimeStackAllocator) =>
      s.created ≤ j → st = {}).2 ?_
    exact ⟨hfresh, fun j _ => h.fresh j⟩
  case apart => exact fun hne x hx hx' => h.apart hne x (hmem _ x hx) (hmem _ x hx')
  case made => exact fun g hg => h.made g (hsuffix.subset hg)
  case marked =>
    intro g o j hg hj
    have hold := h.marked (hg.trans hsuffix) hj
    by_cases hji : j = i
    · subst hji
      have hmemg : g ∈ outer := hg.subset List.mem_cons_self
      obtain rfl := hkept g hmemg hj
      refine ⟨?_, hold.aligned, fun x hx => ?_⟩
      · simpa using htop g hmemg _ hi hj
      · simpa using hold.below x (List.mem_of_mem_filter hx)
    · refine ⟨?_, hold.aligned, fun x hx => ?_⟩
      · simpa [Function.update_of_ne hji] using hold.top_le
      · simpa [Function.update_of_ne hji] using hold.below x (List.mem_of_mem_filter hx)
  case tops => exact htops
  case placed =>
    intro x hx
    obtain ⟨hlive, hkeep⟩ := List.mem_filter.1 hx
    have hplaced := h.placed x hlive
    rcases hplaced.owner_cases hguards with ⟨hown, hdepth⟩ | ⟨g, o, hg, hown, hdepth⟩
    · obtain rfl := Option.some.inj (hi.symm.trans hown)
      simp [hdepth] at hkeep
    · refine ⟨⟨g, o, hg, hown, hdepth⟩, ?_⟩
      by_cases hxi : x.stack = i
      · subst hxi
        obtain rfl := hkept g (hg.subset List.mem_cons_self) hown
        simp only [Function.update_self]
        -- it was made before the guard was entered
        have hle : x.depth ≤ outer.length := hdepth ▸ hg.length_le
        exact { hplaced.holds with stop_le := hmark.below x hlive rfl hle }
      · simpa only [Function.update_of_ne hxi] using hplaced.holds
  case liveApart => exact h.liveApart.sublist List.filter_sublist

/-- The allocations of the guard that is left are forgotten, and its mark is above the other ones
of the stack. -/
theorem Inv.leave (h : Inv s) (hguards : s.guards = guard :: outer) :
    Inv (s.leave guard outer) := by
  unfold State.leave
  cases hi : guard.allocator with
  | none =>
      have hsuffix : outer <:+ s.guards := hguards.symm ▸ List.suffix_cons _ _
      refine { h with
        made := fun g hg => h.made g (hsuffix.subset hg)
        marked := fun hg hi => { h.marked (hg.trans hsuffix) hi with }
        tops := h.tops.sublist hsuffix.sublist
        placed := fun x hx => { h.placed x hx with owner := ?_ } }
      rcases (h.placed x hx).owner_cases hguards with ⟨hstack, -⟩ | howner
      · cases hi.symm.trans hstack
      · exact howner
  | some i =>
      have hself : (guard :: outer) <:+ s.guards := hguards.symm ▸ List.suffix_refl _
      have hmark := h.marked hself hi
      have hstack := h.allocator i
      have hlt := h.made guard (hself.subset List.mem_cons_self) i hi
      by_cases hlast : outer.any (·.allocator = some i) = true
      · simp only [if_pos hlast]
        refine h.pop hguards hi ⟨hstack.region, ?_, hmark.aligned⟩ (fun _ hx => hx)
          (fun hle => absurd hlt (Nat.not_lt_of_le hle)) fun _ _ _ => rfl
        exact hmark.top_le.trans hstack.offset_le
      · simp only [if_neg hlast]
        refine h.pop hguards hi RuntimeStackAllocator.inv_init (fun x hx => ?_) (fun _ => rfl)
          fun g hg hgi => ?_
        · exact absurd hx.2 (Nat.not_lt_zero x)
        · exact absurd (List.any_eq_true.2 ⟨g, hg, by simpa using hgi⟩) hlast

theorem dropWhile_spec {α : Type*} {p : α → Bool} : ∀ {xs : List α}, (∃ x ∈ xs, p x = false) →
    ∃ x rest, xs.dropWhile p = x :: rest ∧ p x = false ∧
      ∀ {y ys}, (y :: ys) <:+ xs → p y = false → ys.length ≤ rest.length
  | [], h => by
      obtain ⟨x, hx, -⟩ := h
      cases hx
  | a :: xs, h => by
      cases ha : p a with
      | false =>
          refine ⟨a, xs, List.dropWhile_cons_of_neg (by simp [ha]), ha, fun hys _ => ?_⟩
          exact Nat.le_of_succ_le_succ hys.length_le
      | true =>
          obtain ⟨b, hb, hbp⟩ := h
          have hbxs : b ∈ xs := by
            rcases List.mem_cons.1 hb with rfl | hb
            · cases ha.symm.trans hbp
            · exact hb
          obtain ⟨x, rest, heq, hx, hmax⟩ := dropWhile_spec ⟨b, hbxs, hbp⟩
          refine ⟨x, rest, (List.dropWhile_cons_of_pos ha).trans heq, hx, fun hys hy => ?_⟩
          rcases List.suffix_cons_iff.1 hys with hyx | hys
          · obtain ⟨rfl, rfl⟩ := List.cons.inj hyx
            cases ha.symm.trans hy
          · exact hmax hys hy

/-- The innermost guard of a stack that is in use. -/
theorem depth_spec (huse : s.InUse i) :
    ∃ guard outer, (guard :: outer) <:+ s.guards ∧ guard.allocator = some i ∧
      s.depth i = outer.length + 1 ∧ ∀ {g o}, (g :: o) <:+ s.guards → g.allocator = some i →
        o.length ≤ outer.length := by
  obtain ⟨g, hg, hi⟩ := huse
  obtain ⟨guard, outer, heq, hguard, hmax⟩ :=
    @dropWhile_spec _ (fun g : RuntimeStackGuard => decide (g.allocator ≠ some i)) s.guards
      ⟨g, hg, by simp [hi]⟩
  refine ⟨guard, outer, heq ▸ List.dropWhile_suffix _, ?_, congrArg List.length heq, ?_⟩
  · simpa using hguard
  · intro g o hg hi
    exact hmax hg (by simp [hi])

theorem Holds.grow {old stack : RuntimeStackAllocator} (h : Holds old x)
    (hcommits : old.Commits answer stack.allocatedRegion)
    (hle : old.allocOffset ≤ stack.allocOffset) : Holds stack x := by
  have hbase := hcommits.base h.pages
  refine ⟨hcommits.pages, hbase ▸ h.base_le, ?_⟩
  rw [hbase]
  exact h.stop_le.trans (Nat.add_le_add_left hle _)

/-- What the host answers is apart from the other stacks, in use or not. -/
theorem State.Answered.apart (ha : s.Answered i size answer) (h : Inv s) (j : ℕ) (hj : j ≠ i) :
    (s.allocators j).allocatedRegion.Apart answer := by
  rcases ha with rfl | ⟨-, -, -, happ⟩
  · exact Span.Apart.symm MemRegion.noMemory_apart
  · rcases Nat.lt_or_ge j s.created with hjc | hjc
    · exact happ j hjc hj
    · exact h.fresh j hjc ▸ MemRegion.noMemory_apart

/-- The region and the offset of one stack go up. -/
theorem Inv.grow (h : Inv s) {stack : RuntimeStackAllocator} (hi : i < s.created)
    (hstack : stack.Inv) (hcommits : (s.allocators i).Commits answer stack.allocatedRegion)
    (hanswer : ∀ j, j ≠ i → (s.allocators j).allocatedRegion.Apart answer)
    (hle : (s.allocators i).allocOffset ≤ stack.allocOffset) :
    Inv { s with allocators := Function.update s.allocators i stack } := by
  have hregion : ∀ j, j ≠ i → stack.allocatedRegion.Apart (s.allocators j).allocatedRegion := by
    intro j hj x hx hxj
    rcases hcommits.mem x hx with hxi | hxa
    · exact h.apart hj x hxj hxi
    · exact hanswer j hj x hxj hxa
  constructor
  case allocator =>
    refine (Function.forall_update_iff _ fun _ (st : RuntimeStackAllocator) => st.Inv).2 ?_
    exact ⟨hstack, fun j _ => h.allocator j⟩
  case fresh =>
    intro j hj
    exact (Function.update_of_ne (hi.trans_le hj).ne' _ _).trans (h.fresh j hj)
  case apart =>
    intro j k hne
    by_cases hji : j = i
    · subst hji
      simpa only [Function.update_self, Function.update_of_ne hne.symm] using hregion k hne.symm
    · by_cases hki : k = i
      · subst hki
        simpa only [Function.update_self, Function.update_of_ne hji] using (hregion j hji).symm
      · simpa only [Function.update_of_ne hji, Function.update_of_ne hki] using h.apart hne
  case made => exact h.made
  case marked =>
    intro g o j hg hj
    have hold := h.marked hg hj
    by_cases hji : j = i
    · subst hji
      refine ⟨?_, hold.aligned, fun x hx hxj hdepth => ?_⟩
      · simpa only [Function.update_self] using hold.top_le.trans hle
      · have hpages := (h.placed x hx).holds.pages
        rw [hxj] at hpages
        simpa only [Function.update_self, hcommits.base hpages] using hold.below x hx hxj hdepth
    · refine ⟨?_, hold.aligned, fun x hx hxj hdepth => ?_⟩
      · simpa only [Function.update_of_ne hji] using hold.top_le
      · simpa only [Function.update_of_ne hji] using hold.below x hx hxj hdepth
  case tops => exact h.tops
  case placed =>
    intro x hx
    have hplaced := h.placed x hx
    refine ⟨hplaced.owner, ?_⟩
    by_cases hxi : x.stack = i
    · subst hxi
      simpa only [Function.update_self] using hplaced.holds.grow hcommits hle
    · simpa only [Function.update_of_ne hxi] using hplaced.holds
  case liveApart => exact h.liveApart

/-- An allocation above the other ones of its stack, under the innermost guard of it. -/
theorem Inv.record (h : Inv s) (hx : Placed s x)
    (hdepth : ∀ {g o}, (g :: o) <:+ s.guards → g.allocator = some x.stack → o.length < x.depth)
    (habove : ∀ y ∈ s.live, y.stack = x.stack → y.span.stop ≤ x.ptr) :
    Inv { s with live := x :: s.live } := by
  have hin := hx.holds.within (h.allocator x.stack)
  refine { h with marked := ?_, placed := ?_, liveApart := ?_ }
  · intro g o i hg hi
    have hold := h.marked hg hi
    refine ⟨hold.top_le, hold.aligned, ?_⟩
    rintro y (_ | ⟨_, hy⟩) hyi hle
    · subst hyi
      exact absurd hle (Nat.not_le_of_lt (hdepth hg hi))
    · exact hold.below y hy hyi hle
  · rintro y (_ | ⟨_, hy⟩)
    · exact { hx with }
    · exact { h.placed y hy with }
  · refine List.pairwise_cons.2 ⟨fun y hy => ?_, h.liveApart⟩
    by_cases hyx : y.stack = x.stack
    · exact Span.Apart.symm (Span.apart_of_stop_le (habove y hy hyx))
    · have hiny := (h.placed y hy).holds.within (h.allocator y.stack)
      exact (h.apart (Ne.symm hyx)).mono hin hiny

/-- An allocation is put where the offset of its stack has been. -/
theorem Inv.alloc (h : Inv s) (huse : s.InUse i) (ha : s.Answered i size answer)
    (hfits : (s.allocators i).allocOffset + size ≤ 2 ^ 64 - maxAlignment)
    (hs : s.alloc asserts answer i size = some s') : Inv s' := by
  obtain ⟨⟨ptr, stack⟩, hr, rfl⟩ := Option.map_eq_some_iff.1 hs
  have hpages := ha.imp_right fun h => And.intro h.1 (And.intro h.2.1 h.2.2.1)
  obtain ⟨hstack, hcommits, hptr, hoffset⟩ :=
    RuntimeStackAllocator.alloc_spec (h.allocator i) hpages hfits hr
  dsimp only at hstack hcommits hptr hoffset
  obtain ⟨guard, outer, hguard, hown, hdepth, hmax⟩ := depth_spec huse
  have hlt := h.made guard (hguard.subset List.mem_cons_self) i hown
  have hle := (Nat.le_add_right _ _).trans hoffset
  have hgrown := h.grow hlt hstack hcommits (fun j hj => ha.apart h j hj) hle
  refine hgrown.record ⟨⟨guard, outer, hguard, hown, hdepth⟩, ?_⟩ ?_ ?_
  · simp only [Function.update_self]
    refine ⟨hcommits.pages, hptr ▸ Nat.le_add_right _ _, ?_⟩
    simp only [Allocation.span, Span.stop, hptr, Nat.add_assoc]
    exact Nat.add_le_add_left hoffset _
  · intro g o hg hi
    exact Nat.lt_of_lt_of_eq (Nat.lt_succ_of_le (hmax hg hi)) hdepth.symm
  · intro y hy hyi
    have hholds := (h.placed y hy).holds
    obtain rfl : y.stack = i := hyi
    change y.span.stop ≤ ptr
    rw [hptr, hcommits.base hholds.pages]
    exact hholds.stop_le

theorem Inv.step {a : Action} (h : Inv s) (ha : Allowable s a) (hfits : Fits s a)
    (hs : step asserts s a = some s') : Inv s' := by
  cases a with
  | enter => exact Option.some.inj hs ▸ h.enter
  | enterSized => exact Option.some.inj hs ▸ h.enterSized
  | leave =>
      simp only [RuntimeStack.step] at hs
      split at hs
      · cases hs
      · next hguards => exact Option.some.inj hs ▸ h.leave hguards
  | alloc i size answer => exact h.alloc ha.1 ha.2 hfits hs
  | realloc i oldPtr size answer =>
      cases oldPtr with
      | none => exact h.alloc ha.1 ha.2 hfits hs
      | some ptr => exact (h.free (some ptr)).alloc ha.1 ha.2 hfits hs
  | free i ptr => exact Option.some.inj hs ▸ h.free ptr

end Steps

/-! ### Leaving a guard -/

section Leave
variable {asserts : Bool} {s t u v : State} {i n : ℕ}

/-- The call does not leave the last `n` guards. -/
def Inside (n : ℕ) (s : State) (a : Action) : Prop := a = .leave → n < s.guards.length

theorem guards_leave {guard : RuntimeStackGuard} {outer : List RuntimeStackGuard} :
    (s.leave guard outer).guards = outer := by
  unfold State.leave
  split <;> rfl

theorem allocOffset_leave {guard : RuntimeStackGuard} {outer : List RuntimeStackGuard}
    (hi : guard.allocator = some i)
    (hlast : (∀ g ∈ outer, g.allocator ≠ some i) → guard.top = 0) :
    ((s.leave guard outer).allocators i).allocOffset = guard.top := by
  simp only [State.leave, hi, Function.update_self]
  split
  · rfl
  · next hany =>
      refine (hlast fun g hg hgi => hany ?_).symm
      exact List.any_eq_true.2 ⟨g, hg, by simpa using hgi⟩

/-- What happens under a guard does not change it, nor those below it. -/
theorem suffix_guards (h : Steps (step asserts) (Inside t.guards.length) t u) :
    t.guards <:+ u.guards := by
  refine h.invariant (P := fun s => t.guards <:+ s.guards) ?_ (List.suffix_refl _)
  intro s a s' hs hok hstep
  cases a with
  | enter | enterSized =>
      obtain rfl := Option.some.inj hstep
      exact hs.trans (List.suffix_cons _ _)
  | leave =>
      simp only [step] at hstep
      split at hstep
      · cases hstep
      · next guard outer hguards =>
          obtain rfl := Option.some.inj hstep
          have hlt := hok rfl
          rw [hguards] at hs hlt
          rw [guards_leave]
          rcases List.suffix_cons_iff.1 hs with heq | hs
          · exact absurd (congrArg List.length heq) hlt.ne
          · exact hs
  | alloc i size answer =>
      obtain ⟨r, -, rfl⟩ := Option.map_eq_some_iff.1 hstep
      exact hs
  | realloc i oldPtr size answer =>
      obtain ⟨r, -, rfl⟩ := Option.map_eq_some_iff.1 hstep
      cases oldPtr with
      | none | some => exact hs
  | free i ptr =>
      obtain rfl := Option.some.inj hstep
      cases ptr with
      | none | some => exact hs

/-- The offset of its stack is what it was when the guard was entered. -/
theorem leave_restores {a : Action} (ha : a = .enter ∨ a = .enterSized)
    (ht : step asserts s a = some t) (hu : Steps (step asserts) (Inside t.guards.length) t u)
    (hlength : u.guards.length = t.guards.length) (hv : step asserts u .leave = some v)
    (hi : t.getAllocator = some i) :
    (v.allocators i).allocOffset = (t.allocators i).allocOffset := by
  have hguards := (suffix_guards hu).eq_of_length hlength.symm
  rcases ha with rfl | rfl
  · obtain rfl := Option.some.inj ht
    change s.getAllocator = some i at hi
    have hu : u.guards = ⟨some i, (s.allocators i).allocOffset⟩ :: s.guards := by
      rw [← hguards, State.enter, hi, Option.elim_some]
    simp only [step, hu] at hv
    obtain rfl := Option.some.inj hv
    -- the guard that was the current one has the stack too
    obtain ⟨g, hg, hgi⟩ := Option.bind_eq_some_iff.1 hi
    exact allocOffset_leave rfl fun hlast => absurd hgi (hlast g (List.mem_of_mem_head? hg))
  · obtain rfl := Option.some.inj ht
    obtain rfl := Option.some.inj hi
    have hu : u.guards = ⟨some s.created, 0⟩ :: s.guards := hguards.symm
    simp only [step, hu] at hv
    obtain rfl := Option.some.inj hv
    rw [allocOffset_leave rfl fun _ => rfl]
    simp only [State.enterSized, Function.update_self]

end Leave

/-! ### Runs -/

/-- What the call that has led to `t` is to leave behind. -/
structure Sound (asserts : Bool) (a : Action) (t : State) : Prop where
  apart : t.live.Pairwise fun x y => x.span.Apart y.span
  committed : ∀ x ∈ t.live, x.span.Within (t.allocators x.stack).allocatedRegion
  restores : a = .enter ∨ a = .enterSized → ∀ {u v : State} {i : ℕ},
    Steps (step asserts) (Inside t.guards.length) t u → u.guards.length = t.guards.length →
    step asserts u .leave = some v → t.getAllocator = some i →
      (v.allocators i).allocOffset = (t.allocators i).allocOffset

section Runs
variable {asserts : Bool} {s t : State} {a : Action}

theorem Inv.sound (h : Inv t) (ht : RuntimeStack.step asserts s a = some t) :
    Sound asserts a t where
  apart := h.liveApart
  committed x hx := (h.placed x hx).holds.within (h.allocator x.stack)
  restores ha _ _ _ hu hlength hv hi := leave_restores ha ht hu hlength hv hi

/-- A stack; under a guard an allocation that needs more pages, and one that takes its place when
the guard has been left. -/
def nested : List Action :=
  [.enterSized, .alloc 0 24 ⟨4096, 4096⟩, .enter, .alloc 0 5000 ⟨8192, 8192⟩,
    .realloc 0 none 8 noMemory, .leave, .alloc 0 40 noMemory, .free 0 (some 4096), .leave]

end Runs

end MyEngine.Memory.RuntimeStack
