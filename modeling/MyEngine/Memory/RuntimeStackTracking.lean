import Mathlib.Data.List.Forall2
import Mathlib.Data.List.Nodup
import MyEngine.Memory.RuntimeStack
import MyEngine.Support.Keyed

/-!
# Memory — RuntimeStackTracking

`runtime_stack.cpp`, in a build with assertions: every allocation of the runtime stacks is kept with
the mark of the innermost guard, and a guard that is left reports those with its own mark.

* `Inv`: what is kept are the allocations that have not been freed, each with the mark of its guard.
* `Inv.step`: every call keeps it that puts no allocation on another one and reports none of an
  outer guard.
* `reports_iff_unshared`: the report of one guard.
* `asserted_of_fitting`: no allocation is put on another one if all of them have sizes that fit.
* `reports_iff`: the runs in which every guard reports what was not freed under it.
-/

namespace MyEngine.Memory.RuntimeStack

open Support Runs

structure AllocationEntry where
  marker : ℕ
  mem : ℕ
  deriving DecidableEq, Repr

/-- `s_trackedAllocations`, a set that compares `mem` only. -/
abbrev TrackedAllocations := List AllocationEntry

/-- `notifyAllocation`; the marker is the `getMyTop` of `s_currentStackGuard`. -/
def notifyAllocation (guards : List RuntimeStackGuard) (mem : ℕ) (tracked : TrackedAllocations) :
    TrackedAllocations :=
  match guards with
  | []         => tracked
  | guard :: _ => if tracked.any (·.mem = mem) then tracked else ⟨guard.top, mem⟩ :: tracked

def notifyFree (mem : ℕ) (tracked : TrackedAllocations) : TrackedAllocations :=
  tracked.eraseP (·.mem = mem)

/-- The entries `checkNonFreedPointers` erases, whose number it reports. -/
def nonFreed (marker : ℕ) (tracked : TrackedAllocations) : TrackedAllocations :=
  tracked.filter (·.marker = marker)

def checkNonFreedPointers (marker : ℕ) (tracked : TrackedAllocations) : TrackedAllocations :=
  tracked.filter (·.marker ≠ marker)

/-- An allocation that has not been freed, and the number of guards around the one that was the
innermost one when it was made. -/
structure Unfreed where
  ptr : ℕ
  depth : ℕ
  deriving DecidableEq, Repr

/-- `unfreed` remembers what was allocated, until it is freed or the guard is left under which it
was made. -/
structure Tracking where
  state : State := {}
  tracked : TrackedAllocations := []
  unfreed : List Unfreed := []

namespace Tracking

variable (t : Tracking)

/-- `~RuntimeStackGuard()`. -/
def leave (guard : RuntimeStackGuard) (outer : List RuntimeStackGuard) : Tracking where
  state := t.state.leave guard outer
  tracked := checkNonFreedPointers guard.top t.tracked
  unfreed := t.unfreed.filter (·.depth ≠ outer.length)

/-- The address `RuntimeStackAllocator::alloc` returns. -/
def newPtr (asserts : Bool) (answer : MemRegion) (i size : ℕ) : Option ℕ :=
  ((t.state.allocators i).alloc asserts answer size).map Prod.fst

/-- `RuntimeStackAllocator::alloc`. -/
def alloc (asserts : Bool) (answer : MemRegion) (i size : ℕ) : Option Tracking :=
  (t.state.alloc asserts answer i size).bind fun state =>
    (t.newPtr asserts answer i size).map fun ptr =>
      { state
        tracked := notifyAllocation t.state.guards ptr t.tracked
        unfreed := ⟨ptr, t.state.guards.length - 1⟩ :: t.unfreed }

def forget (ptr : Option ℕ) (unfreed : List Unfreed) : List Unfreed :=
  ptr.elim unfreed fun mem => unfreed.eraseP (·.ptr = mem)

/-- `RuntimeStackAllocator::free`, but for its assertions. -/
def free (i : ℕ) (ptr : Option ℕ) : Tracking where
  state := t.state.free i ptr
  tracked := ptr.elim t.tracked fun mem => notifyFree mem t.tracked
  unfreed := forget ptr t.unfreed

/-- `RuntimeStackAllocator::realloc` is `alloc`: what is at the old address stays tracked. -/
def realloc (asserts : Bool) (answer : MemRegion) (i : ℕ) (oldPtr : Option ℕ) (size : ℕ) :
    Option Tracking :=
  { t with
    state := t.state.free i oldPtr
    unfreed := forget oldPtr t.unfreed : Tracking }.alloc asserts answer i size

def step (asserts : Bool) (t : Tracking) : Action → Option Tracking
  | .enter                        => some { t with state := t.state.enter }
  | .enterSized                   => some { t with state := t.state.enterSized }
  | .leave                        =>
      match t.state.guards with
      | []             => none
      | guard :: outer => some (t.leave guard outer)
  | .alloc i size answer          => t.alloc asserts answer i size
  | .realloc i oldPtr size answer => t.realloc asserts answer i oldPtr size
  | .free i ptr                   => some (t.free i ptr)

/-! ### The report -/

/-- Nothing that has not been freed is at the address that is returned. -/
def Unoccupied (asserts : Bool) (answer : MemRegion) (i size : ℕ) : Prop :=
  ∀ ptr ∈ t.newPtr asserts answer i size, ∀ x ∈ t.unfreed, x.ptr ≠ ptr

instance {asserts : Bool} {answer : MemRegion} {i size : ℕ} :
    Decidable (t.Unoccupied asserts answer i size) :=
  inferInstanceAs (Decidable (∀ _ ∈ _, _))

/-- What `notifyAllocation` and `realloc` assert. -/
def Asserts (asserts : Bool) (t : Tracking) : Action → Prop
  | .alloc i size answer                      => t.Unoccupied asserts answer i size
  | .realloc i oldPtr size answer             => oldPtr = none ∧ t.Unoccupied asserts answer i size
  | .enter | .enterSized | .leave | .free _ _ => True

instance {asserts : Bool} {t : Tracking} : ∀ a, Decidable (Asserts asserts t a)
  | .alloc i size answer                      =>
      inferInstanceAs (Decidable (t.Unoccupied asserts answer i size))
  | .realloc i oldPtr size answer             =>
      inferInstanceAs (Decidable (oldPtr = none ∧ t.Unoccupied asserts answer i size))
  | .enter | .enterSized | .leave | .free _ _ => inferInstanceAs (Decidable True)

/-- The call comes back, and what it asserts is true. -/
def Asserted (asserts : Bool) (t : Tracking) (a : Action) : Prop :=
  Called asserts t.state a ∧ t.Asserts asserts a

instance {asserts : Bool} {t : Tracking} {a : Action} : Decidable (Asserted asserts t a) :=
  inferInstanceAs (Decidable (_ ∧ _))

/-- What the guard that is left reports are the allocations made under it, and under none within it,
that have not been freed. -/
def Reports (t : Tracking) : Action → Prop
  | .leave => ∀ guard ∈ t.state.guards.head?,
      ((nonFreed guard.top t.tracked).map (·.mem)).Perm
        ((t.unfreed.filter (·.depth = t.state.guards.length - 1)).map (·.ptr))
  | .enter | .enterSized | .alloc _ _ _ | .realloc _ _ _ _ | .free _ _ => True

/-- The guard that is left began at another offset than the guards around it under which there are
allocations that have not been freed. -/
def Unshared (t : Tracking) : Action → Prop
  | .leave => ∀ guard ∈ t.state.guards.head?, ∀ x ∈ t.unfreed, x.depth ≠ t.state.guards.length - 1 →
      ∀ own ∈ t.state.guards.reverse[x.depth]?, own.top ≠ guard.top
  | .enter | .enterSized | .alloc _ _ _ | .realloc _ _ _ _ | .free _ _ => True

instance {t : Tracking} : ∀ a, Decidable (Unshared t a)
  | .leave => inferInstanceAs (Decidable (∀ _ ∈ _, _))
  | .enter | .enterSized | .alloc _ _ _ | .realloc _ _ _ _ | .free _ _ =>
      inferInstanceAs (Decidable True)

end Tracking

/-! ### What is tracked -/

/-- The entry is that of the allocation, with the mark of its guard. -/
structure Marks (guards : List RuntimeStackGuard) (x : Unfreed) (e : AllocationEntry) : Prop where
  mem : x.ptr = e.mem
  marker : ∃ own, guards.reverse[x.depth]? = some own ∧ own.top = e.marker

structure Tracking.Inv (t : Tracking) : Prop where
  marks : List.Forall₂ (Marks t.state.guards) t.unfreed t.tracked
  distinct : (t.unfreed.map (·.ptr)).Nodup

theorem forall₂_eraseP {α β : Type} {R : α → β → Prop} {p : α → Bool} {q : β → Bool} {as : List α}
    {bs : List β} (h : List.Forall₂ R as bs) (hpq : ∀ a b, R a b → p a = q b) :
    List.Forall₂ R (as.eraseP p) (bs.eraseP q) := by
  induction h with
  | nil => exact .nil
  | @cons a b as bs hab htail ih =>
      rw [List.eraseP_cons, List.eraseP_cons, hpq a b hab]
      cases q b with
      | true => exact htail
      | false => exact .cons hab ih

theorem exists_of_forall₂ {α β : Type} {R : α → β → Prop} {as : List α} {bs : List β} {a : α}
    (h : List.Forall₂ R as bs) (ha : a ∈ as) : ∃ b ∈ bs, R a b := by
  induction h with
  | nil => cases ha
  | @cons a' b as bs hab _ ih =>
      rcases List.mem_cons.1 ha with rfl | ha
      · exact ⟨b, List.mem_cons_self, hab⟩
      · obtain ⟨b', hb', hr⟩ := ih ha
        exact ⟨b', List.mem_cons_of_mem _ hb', hr⟩

section Steps
variable {asserts : Bool} {answer : MemRegion} {t t' : Tracking} {guard : RuntimeStackGuard}
  {guards outer : List RuntimeStackGuard} {e : AllocationEntry} {x : Unfreed} {i size : ℕ}

/-- The tracking leaves the stacks alone. -/
theorem Tracking.step_state (asserts : Bool) (t : Tracking) (a : Action) :
    (t.step asserts a).map state = RuntimeStack.step asserts t.state a := by
  have halloc : ∀ (t : Tracking) {answer : MemRegion} {i size : ℕ},
      (t.alloc asserts answer i size).map state = t.state.alloc asserts answer i size := by
    intro t answer i size
    unfold Tracking.alloc newPtr State.alloc
    cases (t.state.allocators i).alloc asserts answer size <;> rfl
  cases a with
  | enter | enterSized | free => rfl
  | leave =>
      simp only [Tracking.step, RuntimeStack.step]
      cases t.state.guards <;> rfl
  | alloc i size answer => exact halloc t
  | realloc i oldPtr size answer => exact halloc _

namespace Marks

/-- A guard that is entered changes the mark of none. -/
theorem enter (h : Marks guards x e) : Marks (guard :: guards) x e := by
  obtain ⟨hmem, own, hown, htop⟩ := h
  refine ⟨hmem, own, ?_, htop⟩
  rw [List.reverse_cons, List.getElem?_append_left (List.getElem?_eq_some_iff.1 hown).1, hown]

theorem leave (h : Marks (guard :: outer) x e) (hx : x.depth ≠ outer.length) :
    Marks outer x e := by
  obtain ⟨hmem, own, hown, htop⟩ := h
  have hlt := (List.getElem?_eq_some_iff.1 hown).1
  rw [List.length_reverse, List.length_cons] at hlt
  refine ⟨hmem, own, ?_, htop⟩
  rwa [List.reverse_cons, List.getElem?_append_left] at hown
  rw [List.length_reverse]
  exact lt_of_le_of_ne (Nat.le_of_lt_succ hlt) hx

/-- What was allocated under the innermost guard has its mark. -/
theorem marker_eq (h : Marks (guard :: outer) x e) (hx : x.depth = outer.length) :
    e.marker = guard.top := by
  obtain ⟨-, own, hown, htop⟩ := h
  rw [hx, List.reverse_cons, ← List.length_reverse, List.getElem?_concat_length] at hown
  rw [← htop, Option.some.inj hown]

end Marks

namespace Tracking

theorem inv_init : Inv {} := ⟨.nil, List.nodup_nil⟩

theorem Inv.mems_eq (h : Inv t) : t.unfreed.map (·.ptr) = t.tracked.map (·.mem) := by
  rw [← List.forall₂_eq_eq_eq, List.forall₂_map_left_iff, List.forall₂_map_right_iff]
  exact h.marks.imp fun x e hx => hx.mem

theorem Inv.enter (h : Inv t) {state : State} (hguards : state.guards = guard :: t.state.guards) :
    Inv { t with state := state } := by
  refine ⟨h.marks.imp fun x e hx => ?_, h.distinct⟩
  rw [hguards]
  exact hx.enter

theorem Inv.forget (h : Inv t) (ptr : Option ℕ) :
    ((Tracking.forget ptr t.unfreed).map (·.ptr)).Nodup := by
  cases ptr with
  | none => exact h.distinct
  | some mem => exact h.distinct.sublist (List.eraseP_sublist.map _)

theorem guards_free {s : State} (i : ℕ) (ptr : Option ℕ) : (s.free i ptr).guards = s.guards := by
  cases ptr <;> rfl

/-- The entry of what is freed goes. -/
theorem Inv.free (h : Inv t) (i : ℕ) (ptr : Option ℕ) : Inv (t.free i ptr) := by
  refine ⟨?_, h.forget ptr⟩
  cases ptr with
  | none => exact h.marks
  | some mem =>
      refine forall₂_eraseP h.marks fun x e hx => ?_
      rw [hx.mem]

/-- An allocation that is not put on another one is tracked. -/
theorem Inv.alloc (h : Inv t) (huse : t.state.InUse i)
    (hfree : t.Unoccupied asserts answer i size) (ht : t.alloc asserts answer i size = some t') :
    Inv t' := by
  obtain ⟨state, hstate, ht⟩ := Option.bind_eq_some_iff.1 ht
  obtain ⟨ptr, hptr, rfl⟩ := Option.map_eq_some_iff.1 ht
  obtain ⟨r, -, rfl⟩ := Option.map_eq_some_iff.1 hstate
  have hnew : ∀ x ∈ t.unfreed, x.ptr ≠ ptr := hfree ptr hptr
  obtain ⟨own, hown, -⟩ := huse
  obtain ⟨guard, outer, hguards⟩ := List.exists_cons_of_ne_nil (List.ne_nil_of_mem hown)
  have hentry : ¬ t.tracked.any (·.mem = ptr) := by
    rw [List.any_eq_true]
    rintro ⟨e, he, heq⟩
    have hmem : e.mem ∈ t.unfreed.map (·.ptr) := h.mems_eq ▸ List.mem_map_of_mem he
    obtain ⟨x, hx, hptr⟩ := List.mem_map.1 hmem
    exact hnew x hx (hptr.trans (of_decide_eq_true heq))
  constructor
  case marks =>
    simp only [notifyAllocation, hguards, if_neg hentry]
    refine .cons ⟨rfl, guard, ?_, rfl⟩ (hguards ▸ h.marks)
    rw [List.reverse_cons, List.length_cons, Nat.add_sub_cancel, ← List.length_reverse,
      List.getElem?_concat_length]
  case distinct =>
    refine List.nodup_cons.2 ⟨fun hmem => ?_, h.distinct⟩
    obtain ⟨x, hx, heq⟩ := List.mem_map.1 hmem
    exact hnew x hx heq

/-- Beside its mark, the entry has the mark of the guard that is left if the allocation was made
under it. -/
def Matches (guard : RuntimeStackGuard) (outer : List RuntimeStackGuard) (x : Unfreed)
    (e : AllocationEntry) : Prop :=
  (x.depth = outer.length ↔ e.marker = guard.top) ∧ Marks (guard :: outer) x e

/-- The entries of a guard with a mark of its own are those of what was allocated under it. -/
theorem Inv.matches (h : Inv t) (hguards : t.state.guards = guard :: outer)
    (hunshared : Unshared t .leave) :
    List.Forall₂ (Matches guard outer) t.unfreed t.tracked := by
  have hown : ∀ x ∈ t.unfreed, x.depth ≠ outer.length →
      ∀ own ∈ (guard :: outer).reverse[x.depth]?, own.top ≠ guard.top := by
    simpa [Unshared, hguards] using hunshared
  have hmarks := (List.forall₂_and_left _ _).2 ⟨hown, hguards ▸ h.marks⟩
  refine hmarks.imp fun x e hx => ⟨⟨hx.2.marker_eq, fun heq => ?_⟩, hx.2⟩
  obtain ⟨own, howned, htop⟩ := hx.2.marker
  by_contra hne
  exact hx.1 hne own howned (htop.trans heq)

theorem Inv.leave (h : Inv t) (hguards : t.state.guards = guard :: outer)
    (hunshared : Unshared t .leave) : Inv (t.leave guard outer) := by
  refine ⟨?_, h.distinct.sublist (List.filter_sublist.map _)⟩
  have hfilter : List.Forall₂ (Matches guard outer) (t.leave guard outer).unfreed
      (t.leave guard outer).tracked := by
    refine List.rel_filter ?_ (h.matches hguards hunshared)
    intro x e hx
    simpa only [decide_eq_true_eq] using not_congr hx.1
  have hdepth : ∀ x ∈ (t.leave guard outer).unfreed, x.depth ≠ outer.length := by
    intro x hx
    exact of_decide_eq_true (List.mem_filter.1 hx).2
  refine ((List.forall₂_and_left _ _).2 ⟨hdepth, hfilter⟩).imp fun x e hx => ?_
  have hstate : (t.leave guard outer).state.guards = outer := guards_leave
  rw [hstate]
  exact hx.2.2.leave hx.1

/-- Under a guard with the mark of one around it, the entries of both are reported. -/
theorem Inv.unshared_of_reports (h : Inv t) (hguards : t.state.guards = guard :: outer)
    (hperm : ((nonFreed guard.top t.tracked).map (·.mem)).Perm
      ((t.unfreed.filter (·.depth = outer.length)).map (·.ptr))) :
    ∀ x ∈ t.unfreed, x.depth ≠ outer.length →
      ∀ own ∈ (guard :: outer).reverse[x.depth]?, own.top ≠ guard.top := by
  intro x hx hdepth own hown htop
  obtain ⟨e, he, hmarks⟩ := exists_of_forall₂ h.marks hx
  obtain ⟨own', hown', hmarker⟩ := hmarks.marker
  obtain rfl : own = own' := Option.some.inj (hown.symm.trans (hguards ▸ hown'))
  have hreported : e ∈ nonFreed guard.top t.tracked :=
    List.mem_filter.2 ⟨he, decide_eq_true (hmarker.symm.trans htop)⟩
  obtain ⟨x', hx', hptr⟩ := List.mem_map.1 (hperm.subset (List.mem_map_of_mem hreported))
  obtain ⟨hmem, hdepth'⟩ := List.mem_filter.1 hx'
  obtain rfl := key_inj h.distinct hmem hx (hptr.trans hmarks.mem.symm)
  exact hdepth (of_decide_eq_true hdepth')

theorem Inv.reports_of_unshared (h : Inv t) (hguards : t.state.guards = guard :: outer)
    (hunshared : Unshared t .leave) :
    ((nonFreed guard.top t.tracked).map (·.mem)).Perm
      ((t.unfreed.filter (·.depth = outer.length)).map (·.ptr)) := by
  have hfilter : List.Forall₂ (Matches guard outer)
      (t.unfreed.filter (·.depth = outer.length)) (nonFreed guard.top t.tracked) := by
    refine List.rel_filter ?_ (h.matches hguards hunshared)
    intro x e hx
    simpa only [decide_eq_true_eq] using hx.1
  refine List.Perm.of_eq (Eq.symm ?_)
  rw [← List.forall₂_eq_eq_eq, List.forall₂_map_left_iff, List.forall₂_map_right_iff]
  exact hfilter.imp fun x e hx => hx.2.mem

theorem reports_iff_unshared (h : Inv t) {a : Action} : Reports t a ↔ Unshared t a := by
  cases a with
  | enter | enterSized | alloc | realloc | free => exact Iff.rfl
  | leave =>
      cases hguards : t.state.guards with
      | nil => simp [Reports, Unshared, hguards]
      | cons guard outer =>
          constructor
          · intro hreports
            simpa [Unshared, hguards] using
              h.unshared_of_reports hguards (by simpa [Reports, hguards] using hreports)
          · intro hunshared
            simpa [Reports, hguards] using h.reports_of_unshared hguards hunshared

theorem Inv.step {a : Action} (h : Inv t) (ha : Asserted asserts t a) (hunshared : Unshared t a)
    (ht : t.step asserts a = some t') : Inv t' := by
  obtain ⟨⟨hallowable, -⟩, hasserts⟩ := ha
  cases a with
  | enter => exact Option.some.inj ht ▸ h.enter rfl
  | enterSized => exact Option.some.inj ht ▸ h.enter rfl
  | leave =>
      simp only [Tracking.step] at ht
      split at ht
      · cases ht
      · next hguards => exact Option.some.inj ht ▸ h.leave hguards hunshared
  | alloc i size answer => exact h.alloc hallowable.1 hasserts ht
  | realloc i oldPtr size answer =>
      obtain ⟨rfl, hfree⟩ := hasserts
      exact h.alloc hallowable.1 hfree ht
  | free i ptr => exact Option.some.inj ht ▸ h.free i ptr

/-! ### What is asserted -/

/-- The size is that of something, it goes on the stack, and nothing is reallocated. -/
def Fitting (t : Tracking) (a : Action) : Prop :=
  Fits t.state a ∧
    match a with
    | .alloc _ size _                           => 0 < size
    | .realloc _ oldPtr size _                  => oldPtr = none ∧ 0 < size
    | .enter | .enterSized | .leave | .free _ _ => True

/-- What has not been freed is live on its stack. -/
structure Live (t : Tracking) : Prop where
  state : RuntimeStack.Inv t.state
  distinct : (t.unfreed.map (·.ptr)).Nodup
  depth : ∀ x ∈ t.unfreed, x.depth < t.state.guards.length
  live : ∀ x ∈ t.unfreed, ∃ y ∈ t.state.live, y.ptr = x.ptr ∧ 0 < y.size ∧ y.depth ≤ x.depth + 1

theorem Live.unoccupied (h : Live t) (huse : t.state.InUse i) (ha : t.state.Answered i size answer)
    (hfits : (t.state.allocators i).allocOffset + size ≤ 2 ^ 64 - maxAlignment)
    (hsize : 0 < size) : t.Unoccupied asserts answer i size := by
  intro ptr hptr x hx heq
  obtain ⟨r, hr, rfl⟩ := Option.map_eq_some_iff.1 hptr
  have hstate : t.state.alloc asserts answer i size = some _ := congrArg (Option.map _) hr
  obtain ⟨hapart, -⟩ := List.pairwise_cons.1 (h.state.alloc huse ha hfits hstate).liveApart
  obtain ⟨y, hy, hyptr, hysize, -⟩ := h.live x hx
  refine hapart y hy r.1 ?_ ?_
  · simp only [Allocation.span, Span.mem_def, Span.stop]
    omega
  · simp only [Allocation.span, Span.mem_def, Span.stop]
    omega

/-- A guard is entered. -/
theorem Live.enter (h : Live t) {state : State} (hstate : RuntimeStack.Inv state)
    (hguards : state.guards = guard :: t.state.guards) (hlive : state.live = t.state.live) :
    Live { t with state := state } := by
  refine ⟨hstate, h.distinct, fun x hx => ?_, fun x hx => ?_⟩
  · rw [hguards]
    exact (h.depth x hx).trans (Nat.lt_succ_self _)
  · rw [hlive]
    exact h.live x hx

/-- What was allocated under the guards around the one that is left stays live. -/
theorem Live.leave (h : Live t) (hguards : t.state.guards = guard :: outer) :
    Live (t.leave guard outer) := by
  have hdepth : ∀ x ∈ (t.leave guard outer).unfreed, x.depth < outer.length := by
    intro x hx
    obtain ⟨hmem, hne⟩ := List.mem_filter.1 hx
    have hlt := h.depth x hmem
    rw [hguards, List.length_cons] at hlt
    exact lt_of_le_of_ne (Nat.le_of_lt_succ hlt) (of_decide_eq_true hne)
  refine ⟨h.state.leave hguards, h.distinct.sublist (List.filter_sublist.map _), ?_, ?_⟩
  · intro x hx
    have hstate : (t.leave guard outer).state.guards = outer := guards_leave
    rw [hstate]
    exact hdepth x hx
  · intro x hx
    obtain ⟨y, hy, hptr, hsize, hle⟩ := h.live x (List.mem_of_mem_filter hx)
    refine ⟨y, ?_, hptr, hsize, hle⟩
    simp only [Tracking.leave, State.leave]
    split
    · exact hy
    · have hne : y.depth ≠ outer.length + 1 := (hle.trans_lt (Nat.succ_lt_succ (hdepth x hx))).ne
      exact List.mem_filter.2 ⟨hy, by simp [hne]⟩

theorem Live.free (h : Live t) (i : ℕ) (ptr : Option ℕ) : Live (t.free i ptr) := by
  cases ptr with
  | none => exact h
  | some ptr =>
      refine ⟨h.state.free (some ptr), h.distinct.sublist (List.eraseP_sublist.map _), ?_, ?_⟩
      · exact fun x hx => h.depth x (List.mem_of_mem_eraseP hx)
      · intro x hx
        obtain ⟨y, hy, hptr, hsize, hle⟩ := h.live x (List.mem_of_mem_eraseP hx)
        refine ⟨y, (List.mem_eraseP_of_neg ?_).2 hy, hptr, hsize, hle⟩
        have hmem : x.ptr ∈ (t.unfreed.map (·.ptr)).erase ptr := by
          rw [List.erase_eq_eraseP', List.eraseP_map]
          exact List.mem_map_of_mem hx
        have hne : y.ptr ≠ ptr := hptr ▸ (h.distinct.mem_erase_iff.1 hmem).1
        simp [hne]

theorem Live.alloc (h : Live t) (huse : t.state.InUse i) (ha : t.state.Answered i size answer)
    (hfits : (t.state.allocators i).allocOffset + size ≤ 2 ^ 64 - maxAlignment)
    (hsize : 0 < size) (ht : t.alloc asserts answer i size = some t') : Live t' := by
  have hnew : t.Unoccupied asserts answer i size := h.unoccupied huse ha hfits hsize
  obtain ⟨state, hstate, ht⟩ := Option.bind_eq_some_iff.1 ht
  obtain ⟨ptr, hptr, rfl⟩ := Option.map_eq_some_iff.1 ht
  have hinv := h.state.alloc huse ha hfits hstate
  obtain ⟨r, hr, rfl⟩ := Option.map_eq_some_iff.1 hstate
  obtain rfl : r.1 = ptr := by
    rw [newPtr, hr] at hptr
    exact Option.some.inj hptr
  obtain ⟨own, hown, -⟩ := huse
  have hpos : 0 < t.state.guards.length := List.length_pos_of_mem hown
  refine ⟨hinv, ?_, ?_, ?_⟩
  · refine List.nodup_cons.2 ⟨fun hmem => ?_, h.distinct⟩
    obtain ⟨x, hx, heq⟩ := List.mem_map.1 hmem
    exact hnew _ hptr x hx heq
  · rintro x (_ | ⟨_, hx⟩)
    · exact Nat.sub_lt hpos Nat.one_pos
    · exact h.depth x hx
  · rintro x (_ | ⟨_, hx⟩)
    · refine ⟨_, List.mem_cons_self, rfl, hsize, ?_⟩
      rw [Nat.sub_add_cancel hpos]
      exact (List.dropWhile_suffix _).length_le
    · obtain ⟨y, hy, hrest⟩ := h.live x hx
      exact ⟨y, List.mem_cons_of_mem _ hy, hrest⟩

theorem Live.step {a : Action} (h : Live t) (ha : Called asserts t.state a) (hfit : Fitting t a) :
    Asserted asserts t a ∧ ∀ t' ∈ t.step asserts a, Live t' := by
  have hstate : ∀ t' ∈ t.step asserts a, RuntimeStack.Inv t'.state := by
    intro t' ht
    have hstep : RuntimeStack.step asserts t.state a = some t'.state := by
      rw [← step_state, ht, Option.map_some]
    exact h.state.step ha.1 hfit.1 hstep
  cases a with
  | enter =>
      refine ⟨⟨ha, trivial⟩, ?_⟩
      rintro _ ⟨⟩
      exact h.enter (hstate _ rfl) rfl rfl
  | enterSized =>
      refine ⟨⟨ha, trivial⟩, ?_⟩
      rintro _ ⟨⟩
      exact h.enter (hstate _ rfl) rfl rfl
  | leave =>
      refine ⟨⟨ha, trivial⟩, fun t' ht => ?_⟩
      simp only [Tracking.step] at ht
      split at ht
      · cases ht
      · next hguards => exact Option.some.inj ht ▸ h.leave hguards
  | alloc i size answer =>
      obtain ⟨huse, hanswered⟩ := ha.1
      refine ⟨⟨ha, h.unoccupied huse hanswered hfit.1 hfit.2⟩, fun t' ht => ?_⟩
      exact h.alloc huse hanswered hfit.1 hfit.2 ht
  | realloc i oldPtr size answer =>
      obtain ⟨hfits, rfl, hsize⟩ := hfit
      obtain ⟨huse, hanswered⟩ := ha.1
      refine ⟨⟨ha, rfl, h.unoccupied huse hanswered hfits hsize⟩, fun t' ht => ?_⟩
      exact h.alloc huse hanswered hfits hsize ht
  | free i ptr =>
      refine ⟨⟨ha, trivial⟩, ?_⟩
      rintro _ ⟨⟩
      exact h.free i ptr

/-- What the calls assert is true when everything that is allocated has a size and fits. -/
theorem asserted_of_fitting : ∀ {t : Tracking} {actions : List Action}, Live t →
    Allowed (step asserts) (fun t a => Called asserts t.state a) t actions →
    Allowed (step asserts) Fitting t actions → Allowed (step asserts) (Asserted asserts) t actions
  | _, [], _, _, _ => trivial
  | t, a :: actions, h, ⟨ha, hcalled⟩, ⟨hfit, hfitting⟩ => by
      obtain ⟨hasserted, hlive⟩ := h.step ha hfit
      exact ⟨hasserted, fun t' ht =>
        asserted_of_fitting (hlive t' ht) (hcalled t' ht) (hfitting t' ht)⟩

/-- **The leak check of a guard** reports what was allocated under the guard, and under none within
or around it, and has not been freed, whatever guards are entered and left in nested order, when no
guard is left that began at the offset of a guard around it with allocations of its own, and in no
other case. -/
theorem reports_iff {actions : List Action}
    (hasserted : Allowed (step asserts) (Asserted asserts) {} actions) :
    Allowed (step asserts) Reports {} actions ↔ Allowed (step asserts) Unshared {} actions := by
  refine allowed_congr (P := Inv) ?_ (fun a h _ => reports_iff_unshared h) actions inv_init
    hasserted
  intro t a t' h ha hreports ht
  exact h.step ha ((reports_iff_unshared h).1 hreports) ht

/-- A guard that goes on with the stack of the one before, and one with a stack of its own, in which
an allocation of the first stack is left behind. -/
def nestedGuards : List Action :=
  [.enterSized, .alloc 0 24 ⟨4096, 4096⟩, .enter, .alloc 0 8 noMemory, .free 0 (some 4096),
    .enterSized, .alloc 0 16 noMemory, .leave, .leave, .leave]

theorem reports_nestedGuards : Allowed (step true) Reports {} nestedGuards :=
  (reports_iff (by decide)).2 (by decide)

/-- The inner guard has a stack of its own and nothing on it; the offset it began at is that of the
outer one, too. -/
theorem not_reports_enterSized :
    let actions : List Action := [.enterSized, .alloc 0 16 ⟨4096, 4096⟩, .enterSized]
    Allowed (step true) (Asserted true) {} (actions ++ [.leave]) ∧
      ∃ t, exec (step true) {} actions = some t ∧ t.unfreed = [⟨4096, 0⟩] ∧
        t.state.guards.length = 2 ∧ nonFreed 0 t.tracked = [⟨0, 4096⟩] ∧ ¬ Reports t .leave := by
  refine ⟨by decide, _, rfl, rfl, rfl, rfl, ?_⟩
  intro hreports
  exact absurd (hreports _ rfl).length_eq (by decide)

end Tracking

end Steps

end MyEngine.Memory.RuntimeStack
