import Mathlib.Algebra.Order.Ring.Nat
import MyEngine.Support.Replace
import MyEngine.Support.Runs

/-!
# Memory — HostVirtualMemory

`host_virtual_memory.cpp`: threads take regions off a reserved range by advancing one atomic offset,
and commit what the offset has passed under a lock.  Addresses are counted from `m_basePtr`, and
sizes are those of the machine: a sum can pass the largest one and come back to the reserved range.

* `Claim`: what a thread holds between its compare-exchange and its return is behind the offset,
  or beyond what can be committed.
* `Inv`: the regions that have been returned and those that are held are pairwise disjoint.
* `allocPages_sound`: as long as no sum comes back to the reserved range, the regions are disjoint
  pages within it, and committed.
-/

namespace MyEngine.Memory

open Runs

namespace HostVirtualMemory

/-- `alignedSize`, for a power of two. -/
def alignedSize (size alignment : UInt64) : UInt64 := (size + alignment - 1) &&& ~~~(alignment - 1)

/-- `mem::PageSize`. -/
def pageSize : UInt64 := 4096

/-- `mem::AllocationGranularity`. -/
def allocationGranularity : UInt64 := 65536

/-- A `MemRegion` with memory; the one without is `none` where it is returned. -/
structure MemRegion where
  offset : UInt64
  size : UInt64
  deriving DecidableEq

/-- Where a thread is in `allocPages`, with its local variables. -/
inductive Thread where
  | idle
  /-- Before the first read of `m_allocOffset`. -/
  | entered (size : UInt64)
  /-- Before the second one, for the new value. -/
  | reading (size allocOffset : UInt64)
  /-- Before `compare_exchange_strong`, which expects `allocOffset`. -/
  | exchanging (size allocOffset second : UInt64)
  /-- Before the first read of `m_commitedSize`. -/
  | checking (size allocOffset : UInt64)
  /-- Before the locked section. -/
  | locking (size allocOffset : UInt64)
  deriving DecidableEq

structure State where
  size : UInt64
  commitedSize : UInt64 := 0
  allocOffset : UInt64 := 0
  /-- The calls of `VirtualAlloc` with `MEM_COMMIT`: where from and how much. -/
  commits : List MemRegion := []
  threads : List Thread
  /-- What `allocPages` has returned, the last call first. -/
  returned : List (Option MemRegion) := []
  deriving DecidableEq

/-- The constructor, with the threads that are going to call `allocPages`. -/
def create (size : UInt64) (threads : Nat) : State where
  size := alignedSize size allocationGranularity
  threads := .replicate threads .idle

namespace State

def setThread (s : State) (t : Nat) (thread : Thread) : State :=
  { s with threads := s.threads.set t thread }

def leave (s : State) (t : Nat) (region : Option MemRegion) : State :=
  { s with threads := s.threads.set t .idle, returned := region :: s.returned }

/-- What the thread does next. -/
def next (s : State) (t : Nat) : Thread → Option State
  | .idle => none
  | .entered size => s.setThread t (.reading size s.allocOffset)
  | .reading size allocOffset => s.setThread t (.exchanging size allocOffset s.allocOffset)
  | .exchanging size allocOffset second =>
      if s.allocOffset = allocOffset then
        { s with allocOffset := second + size }.setThread t (.checking size allocOffset)
      else
        s.setThread t (.reading size s.allocOffset)
  | .checking size allocOffset =>
      if s.commitedSize < allocOffset + size then
        s.setThread t (.locking size allocOffset)
      else
        s.leave t (some ⟨allocOffset, size⟩)
  | .locking size allocOffset =>
      let requiredCommitedSize := allocOffset + size
      if s.commitedSize < requiredCommitedSize then
        let commitSize := requiredCommitedSize - s.commitedSize
        let newCommitedSize := s.commitedSize + commitSize
        if s.size < newCommitedSize then
          s.leave t none
        else
          { s with
            commits := ⟨s.commitedSize, commitSize⟩ :: s.commits
            commitedSize := newCommitedSize }.leave t (some ⟨allocOffset, size⟩)
      else
        s.leave t (some ⟨allocOffset, size⟩)

end State

inductive Action where
  | allocPages (t : Nat) (size : UInt64)
  | next (t : Nat)

def step (s : State) : Action → Option State
  | .allocPages t size =>
      match s.threads[t]? with
      | some .idle => s.setThread t (.entered (alignedSize size pageSize))
      | _          => none
  | .next t =>
      match s.threads[t]? with
      | some thread => s.next t thread
      | none        => none

/-! ### What is claimed of the range -/

namespace MemRegion

/-- The first address behind the region. -/
def stop (r : MemRegion) : Nat := r.offset.toNat + r.size.toNat

/-- No address is in both regions. -/
def Apart (r r' : MemRegion) : Prop := r.stop ≤ r'.offset.toNat ∨ r'.stop ≤ r.offset.toNat

theorem Apart.symm {r r' : MemRegion} (h : r.Apart r') : r'.Apart r := h.elim .inr .inl

/-- The region begins and ends where pages do. -/
def Paged (r : MemRegion) : Prop :=
  pageSize.toNat ∣ r.offset.toNat ∧ pageSize.toNat ∣ r.size.toNat

end MemRegion

/-- The region between its compare-exchange and its return. -/
def Thread.claim : Thread → Option MemRegion
  | .checking size allocOffset | .locking size allocOffset => some ⟨allocOffset, size⟩
  | _ => none

namespace State

def Within (s : State) (r : MemRegion) : Prop := r.stop ≤ s.size.toNat

/-- The offset has passed the region, unless it has left the range. -/
def Passed (s : State) (r : MemRegion) : Prop :=
  s.allocOffset ≤ s.size → r.stop ≤ s.allocOffset.toNat

/-- What a compare-exchange has taken: a region of the range, or one that needs more memory to be
committed than there is. -/
structure Claim (s : State) (r : MemRegion) : Prop where
  paged : r.Paged
  within : s.size < r.offset + r.size ∨ s.Within r ∧ s.Passed r

/-- The offset has been here, and has not come back. -/
def Behind (s : State) (allocOffset : UInt64) : Prop :=
  s.allocOffset ≤ s.size → allocOffset ≤ s.allocOffset

/-- What a thread knows of the offset. -/
def Knows (s : State) : Thread → Prop
  | .idle => True
  | .entered size => pageSize.toNat ∣ size.toNat
  | .reading size allocOffset => MemRegion.Paged ⟨allocOffset, size⟩ ∧ s.Behind allocOffset
  | .exchanging size allocOffset second =>
      MemRegion.Paged ⟨allocOffset, size⟩ ∧ MemRegion.Paged ⟨second, size⟩ ∧ s.Behind second ∧
        (s.allocOffset ≤ s.size → allocOffset ≤ second) ∧ (s.size < allocOffset → s.size < second)
  | .checking size allocOffset | .locking size allocOffset => s.Claim ⟨allocOffset, size⟩

/-- Only the offset and the size of the range matter. -/
theorem Knows.congr {s s' : State} {thread : Thread} (h : s.Knows thread) (hs : s'.size = s.size)
    (ho : s'.allocOffset = s.allocOffset) : s'.Knows thread := by
  obtain ⟨size, _, allocOffset, _, _, _⟩ := s
  obtain ⟨size', _, allocOffset', _, _, _⟩ := s'
  obtain rfl : size' = size := hs
  obtain rfl : allocOffset' = allocOffset := ho
  cases thread with
  | checking | locking => exact ⟨h.paged, h.within⟩
  | _ => exact h

end State

/-- The invariant. -/
structure Inv (s : State) : Prop where
  paged : pageSize.toNat ∣ s.allocOffset.toNat
  commited : s.commitedSize ≤ s.size
  commits : ∀ x < s.commitedSize.toNat, ∃ c ∈ s.commits, c.offset.toNat ≤ x ∧ x < c.stop
  knows : ∀ thread ∈ s.threads, s.Knows thread
  returned : ∀ r, some r ∈ s.returned →
    r.Paged ∧ s.Within r ∧ s.Passed r ∧ r.stop ≤ s.commitedSize.toNat
  returnedApart : s.returned.Pairwise fun x y => ∀ r ∈ x, ∀ r' ∈ y, r.Apart r'
  returnedClaimed : ∀ r, some r ∈ s.returned → ∀ thread ∈ s.threads, ∀ r' ∈ thread.claim,
    s.Within r' → r.Apart r'
  claimedApart : ∀ {i j : Nat} {x y : Thread}, i ≠ j → s.threads[i]? = some x →
    s.threads[j]? = some y → ∀ r ∈ x.claim, ∀ r' ∈ y.claim, s.Within r → s.Within r' → r.Apart r'

/-! ### The steps -/

section Steps
variable {s : State} {t : Nat} {old new : Thread}

/-- A thread goes on without a claim, or with the one it has. -/
theorem Inv.setThread (h : Inv s) (ht : s.threads[t]? = some old) (hk : s.Knows new)
    (hc : ∀ r ∈ new.claim, r ∈ old.claim) : Inv (s.setThread t new) where
  paged := h.paged
  commited := h.commited
  commits := h.commits
  knows := forall_mem_set (fun thread hm => (h.knows thread hm).congr rfl rfl) (hk.congr rfl rfl)
  returned := h.returned
  returnedApart := h.returnedApart
  returnedClaimed r hr := by
    refine forall_mem_set (h.returnedClaimed r hr) fun r' hr' => ?_
    exact h.returnedClaimed r hr old (List.mem_of_getElem? ht) r' (hc r' hr')
  claimedApart hij hx hy r hr r' hr' := by
    rcases getElem?_set_cases hx with ⟨rfl, rfl⟩ | ⟨-, hx⟩
    · rcases getElem?_set_cases hy with ⟨rfl, -⟩ | ⟨-, hy⟩
      · exact absurd rfl hij
      · exact h.claimedApart hij ht hy r (hc r hr) r' hr'
    · rcases getElem?_set_cases hy with ⟨rfl, rfl⟩ | ⟨-, hy⟩
      · exact h.claimedApart hij hx ht r hr r' (hc r' hr')
      · exact h.claimedApart hij hx hy r hr r' hr'

/-- A thread returns what it has claimed, once it is committed. -/
theorem Inv.leave (h : Inv s) (ht : s.threads[t]? = some old) {region : Option MemRegion}
    (hr : ∀ r ∈ region, r ∈ old.claim ∧ s.Claim r ∧ s.Within r ∧ s.Passed r ∧
      r.stop ≤ s.commitedSize.toNat) : Inv (s.leave t region) := by
  have hnone : ∀ r ∈ Thread.idle.claim, r ∈ old.claim := by simp [Thread.claim]
  have hknows : s.Knows .idle := trivial
  have hidle := h.setThread ht hknows hnone
  exact { hidle with
    knows := fun thread hm => (hidle.knows thread hm).congr rfl rfl
    returned := fun r hmem => by
      rcases List.mem_cons.mp hmem with he | hmem
      · obtain ⟨-, hcl, hin, hpass, hcom⟩ := hr r he.symm
        exact ⟨hcl.paged, hin, hpass, hcom⟩
      · exact h.returned r hmem
    returnedApart := by
      refine List.pairwise_cons.mpr ⟨fun x hx r hreg r' hx' => ?_, h.returnedApart⟩
      obtain ⟨hclaim, -, hin, -, -⟩ := hr r hreg
      rw [Option.mem_def] at hx'
      subst hx'
      exact (h.returnedClaimed r' hx old (List.mem_of_getElem? ht) r hclaim hin).symm
    returnedClaimed := fun r hmem thread hthread r' hr' hin' => by
      rcases List.mem_cons.mp hmem with he | hmem
      · obtain ⟨hclaim, -, hin, -, -⟩ := hr r he.symm
        obtain ⟨j, hj⟩ := List.getElem?_of_mem hthread
        rcases getElem?_set_cases hj with ⟨rfl, rfl⟩ | ⟨hne, hj⟩
        · cases hr'
        · exact h.claimedApart hne ht hj r hclaim r' hr' hin hin'
      · exact hidle.returnedClaimed r hmem thread hthread r' hr' hin' }

/-- More of the range is committed, from where it has been. -/
theorem Inv.commit (h : Inv s) {required : UInt64} (hlt : s.commitedSize < required)
    (hle : required ≤ s.size) :
    Inv { s with
      commits := ⟨s.commitedSize, required - s.commitedSize⟩ :: s.commits
      commitedSize := required } where
  paged := h.paged
  commited := hle
  commits x hx := by
    change x < required.toNat at hx
    by_cases hold : x < s.commitedSize.toNat
    · obtain ⟨c, hc, hin⟩ := h.commits x hold
      exact ⟨c, List.mem_cons_of_mem _ hc, hin⟩
    · refine ⟨_, List.mem_cons_self, Nat.le_of_not_lt hold, ?_⟩
      have hsub := UInt64.toNat_sub_of_le _ _ (UInt64.le_of_lt hlt)
      rw [UInt64.lt_iff_toNat_lt] at hlt
      simp only [MemRegion.stop, hsub]
      omega
  knows thread hm := (h.knows thread hm).congr rfl rfl
  returned r hr := by
    obtain ⟨hp, hin, hpass, hcom⟩ := h.returned r hr
    exact ⟨hp, hin, hpass, hcom.trans (UInt64.le_iff_toNat_le.mp (UInt64.le_of_lt hlt))⟩
  returnedApart := h.returnedApart
  returnedClaimed := h.returnedClaimed
  claimedApart := h.claimedApart

/-- A sum that does not overflow the range is one of numbers. -/
theorem toNat_stop {s : State} {r : MemRegion} (h : s.Within r) :
    (r.offset + r.size).toNat = r.stop := by
  rw [UInt64.toNat_add, Nat.mod_eq_of_lt]
  · rfl
  · exact Nat.lt_of_le_of_lt h s.size.toNat_lt

/-- A claim that is committed lies in the range. -/
theorem State.Claim.of_commited {r : MemRegion} (h : s.Claim r) (hs : s.commitedSize ≤ s.size)
    (hle : r.offset + r.size ≤ s.commitedSize) :
    s.Within r ∧ s.Passed r ∧ r.stop ≤ s.commitedSize.toNat := by
  obtain hlt | ⟨hin, hpass⟩ := h.within
  · exact absurd hlt (UInt64.not_lt.mpr (UInt64.le_trans hle hs))
  · refine ⟨hin, hpass, ?_⟩
    rw [← toNat_stop hin]
    exact UInt64.le_iff_toNat_le.mp hle

/-- The sum stays below the largest size, or comes back beyond the range. -/
def StaysOut (size x n : UInt64) : Prop := x.toNat + n.toNat < 2 ^ 64 ∨ size < x + n

instance (size x n : UInt64) : Decidable (StaysOut size x n) :=
  inferInstanceAs (Decidable (_ ∨ _))

theorem StaysOut.toNat_add {size x n : UInt64} (h : StaysOut size x n) (hle : x + n ≤ size) :
    (x + n).toNat = x.toNat + n.toNat := by
  obtain h | h := h
  · rw [UInt64.toNat_add, Nat.mod_eq_of_lt h]
  · exact absurd h (UInt64.not_lt.mpr hle)

theorem State.Claim.passed {r : MemRegion} (h : s.Claim r) (hin : s.Within r) : s.Passed r := by
  obtain hlt | ⟨-, hpass⟩ := h.within
  · rw [UInt64.lt_iff_toNat_lt, toNat_stop hin] at hlt
    exact absurd hin (Nat.not_le_of_lt hlt)
  · exact hpass

/-- What a thread claims it knows. -/
theorem State.Knows.claim {thread : Thread} {r : MemRegion} (h : s.Knows thread)
    (hr : r ∈ thread.claim) : s.Claim r := by
  cases thread with
  | checking | locking => exact Option.some.inj hr ▸ h
  | _ => cases hr

/-- What lies behind the offset is apart from what starts there. -/
theorem State.Passed.apart {r : MemRegion} {size : UInt64} (h : s.Passed r)
    (hin : s.Within ⟨s.allocOffset, size⟩) : r.Apart ⟨s.allocOffset, size⟩ :=
  .inl (h (UInt64.le_iff_toNat_le.mpr (Nat.le_trans (Nat.le_add_right _ _) hin)))

/-- The second read has seen the offset the compare-exchange finds, unless it is out of the
range. -/
theorem exchanged {size allocOffset second : UInt64}
    (hk : s.Knows (.exchanging size allocOffset second)) (ho : s.allocOffset = allocOffset)
    (hsecond : StaysOut s.size second size) (hle : second + size ≤ s.size) :
    s.allocOffset ≤ s.size ∧ (second + size).toNat = s.allocOffset.toNat + size.toNat := by
  obtain ⟨-, -, hbehind, hfirst, hbeyond⟩ := hk
  have hsum := hsecond.toNat_add hle
  by_cases hin : s.allocOffset ≤ s.size
  · have heq : second = s.allocOffset :=
      UInt64.le_antisymm (hbehind hin) (ho ▸ hfirst hin)
    exact ⟨hin, heq ▸ hsum⟩
  · have hlt := hbeyond (ho ▸ UInt64.not_le.mp hin)
    rw [UInt64.le_iff_toNat_le, hsum] at hle
    rw [UInt64.lt_iff_toNat_lt] at hlt
    omega

/-- The compare-exchange that succeeds takes what lies behind every other claim. -/
theorem Inv.exchange (h : Inv s) {size allocOffset second : UInt64}
    (ht : s.threads[t]? = some (.exchanging size allocOffset second))
    (ho : s.allocOffset = allocOffset) (hfirst : StaysOut s.size allocOffset size)
    (hsecond : StaysOut s.size second size) :
    Inv ({ s with allocOffset := second + size }.setThread t (.checking size allocOffset)) := by
  have hk := h.knows _ (List.mem_of_getElem? ht)
  have hnew := fun hle => exchanged hk ho hsecond hle
  have hpassed : ∀ {r}, s.Passed r → second + size ≤ s.size → r.stop ≤ (second + size).toNat := by
    intro r hpass hle
    obtain ⟨hin, hsum⟩ := hnew hle
    have := hpass hin
    omega
  have hbehind : ∀ {o}, s.Behind o → second + size ≤ s.size → o ≤ second + size := by
    intro o hb hle
    obtain ⟨hin, hsum⟩ := hnew hle
    have := UInt64.le_iff_toNat_le.mp (hb hin)
    rw [UInt64.le_iff_toNat_le]
    omega
  have hclaim : State.Claim { s with allocOffset := second + size } ⟨allocOffset, size⟩ := by
    refine ⟨hk.1, ?_⟩
    by_cases hle : allocOffset + size ≤ s.size
    · have hsum := hfirst.toNat_add hle
      refine .inr ⟨?_, fun hle' => ?_⟩
      · rw [State.Within, MemRegion.stop, ← hsum]
        exact UInt64.le_iff_toNat_le.mp hle
      · rw [(hnew hle').2, ho]
        exact Nat.le_refl _
    · exact .inl (UInt64.not_le.mp hle)
  constructor
  case paged =>
    change _ ∣ (second + size).toNat
    rw [UInt64.toNat_add, Nat.dvd_mod_iff (by decide)]
    exact (Nat.dvd_add_iff_right hk.2.1.1).mp hk.2.1.2
  case commited => exact h.commited
  case commits => exact h.commits
  case knows =>
    have hchecking : State.Knows { s with allocOffset := second + size } (.checking _ _) := hclaim
    refine forall_mem_set (fun thread hm => ?_) (hchecking.congr rfl rfl)
    have := h.knows thread hm
    cases thread with
    | idle => trivial
    | entered size' => exact this
    | reading size' o => exact ⟨this.1, hbehind this.2⟩
    | exchanging size' o r =>
        obtain ⟨hp, hp', hb, hf, hbe⟩ := this
        exact ⟨hp, hp', hbehind hb, fun hle => hf (hnew hle).1, hbe⟩
    | checking | locking => exact ⟨this.paged, this.within.imp_right fun h => ⟨h.1, hpassed h.2⟩⟩
  case returned =>
    intro r hr
    obtain ⟨hp, hin, hpass, hcom⟩ := h.returned r hr
    exact ⟨hp, hin, hpassed hpass, hcom⟩
  case returnedApart => exact h.returnedApart
  case returnedClaimed =>
    intro r hr
    refine forall_mem_set (h.returnedClaimed r hr) fun r' hr' hin => ?_
    obtain rfl := Option.some.inj hr'
    obtain ⟨-, -, hpass, -⟩ := h.returned r hr
    exact ho ▸ hpass.apart (ho ▸ hin)
  case claimedApart =>
    have hothers : ∀ {j : Nat} {y : Thread}, s.threads[j]? = some y → ∀ r ∈ y.claim, s.Within r →
        s.Within ⟨allocOffset, size⟩ → r.Apart ⟨allocOffset, size⟩ := by
      intro j y hy r hr hin hin'
      have hclaim := (h.knows y (List.mem_of_getElem? hy)).claim hr
      exact ho ▸ (hclaim.passed hin).apart (ho ▸ hin')
    intro i j x y hij hx hy r hr r' hr' hin hin'
    rcases getElem?_set_cases hx with ⟨rfl, rfl⟩ | ⟨-, hx⟩
    · rcases getElem?_set_cases hy with ⟨rfl, -⟩ | ⟨-, hy⟩
      · exact absurd rfl hij
      · obtain rfl := Option.some.inj hr
        exact (hothers hy r' hr' hin' hin).symm
    · rcases getElem?_set_cases hy with ⟨rfl, rfl⟩ | ⟨-, hy⟩
      · obtain rfl := Option.some.inj hr'
        exact hothers hx r hr hin hin'
      · exact h.claimedApart hij hx hy r hr r' hr' hin hin'

end Steps

/-! ### Runs -/

/-- An aligned size ends in zeros. -/
theorem pageSize_dvd_alignedSize (size : UInt64) :
    pageSize.toNat ∣ (alignedSize size pageSize).toNat := by
  rw [alignedSize, UInt64.toNat_and]
  refine Nat.dvd_of_mod_eq_zero ?_
  have hand := Nat.and_mod_two_pow (a := (size + pageSize - 1).toNat)
    (b := (~~~(pageSize - 1)).toNat) (n := 12)
  have hmask : (~~~(pageSize - 1)).toNat % 2 ^ 12 = 0 := by decide
  rwa [hmask, Nat.and_zero] at hand

/-- The sums of a compare-exchange that succeeds do not come back to the range: the end of the
region it takes, and the new offset. -/
def Thread.Fits (s : State) : Thread → Prop
  | .exchanging size allocOffset second =>
      s.allocOffset = allocOffset → StaysOut s.size allocOffset size ∧ StaysOut s.size second size
  | _ => True

instance (s : State) (thread : Thread) : Decidable (thread.Fits s) :=
  match thread with
  | .exchanging _ _ _ => inferInstanceAs (Decidable (_ → _))
  | .idle | .entered _ | .reading _ _ | .checking _ _ | .locking _ _ =>
      inferInstanceAs (Decidable True)

/-- The next step of a thread does not come back to the range. -/
def Fits (s : State) : Action → Prop
  | .allocPages _ _ => True
  | .next t         => ∀ thread ∈ s.threads[t]?, thread.Fits s

instance (s : State) (a : Action) : Decidable (Fits s a) :=
  match a with
  | .allocPages _ _ => inferInstanceAs (Decidable True)
  | .next t         => inferInstanceAs (Decidable (∀ thread ∈ s.threads[t]?, thread.Fits s))

/-- What is committed, and what is then missing, is what is required. -/
theorem commit_rest (commited required : UInt64) : commited + (required - commited) = required := by
  rw [UInt64.add_comm, UInt64.sub_add_cancel]

theorem inv_create (size : UInt64) (threads : Nat) : Inv (create size threads) where
  paged := Nat.dvd_zero _
  commited := UInt64.zero_le
  commits x hx := absurd hx (Nat.not_lt_zero _)
  knows thread hm := by
    rw [List.eq_of_mem_replicate hm]
    trivial
  returned r hr := by cases hr
  returnedApart := .nil
  returnedClaimed r hr := by cases hr
  claimedApart {i j x y} hij hx hy r hr := by
    rw [List.eq_of_mem_replicate (List.mem_of_getElem? hx)] at hr
    cases hr

theorem Inv.step {s s' : State} {a : Action} (h : Inv s) (hf : Fits s a)
    (hs : step s a = some s') : Inv s' := by
  cases a with
  | allocPages t size =>
      simp only [HostVirtualMemory.step] at hs
      split at hs
      · next ht =>
          obtain rfl := Option.some.inj hs
          exact h.setThread ht (pageSize_dvd_alignedSize size) (by simp [Thread.claim])
      · cases hs
  | next t =>
      simp only [HostVirtualMemory.step] at hs
      split at hs
      next thread ht =>
        have hk := h.knows thread (List.mem_of_getElem? ht)
        cases thread with
        | idle => cases hs
        | entered size =>
            obtain rfl := Option.some.inj hs
            exact h.setThread ht ⟨⟨h.paged, hk⟩, fun _ => UInt64.le_refl _⟩ (by simp [Thread.claim])
        | reading size allocOffset =>
            obtain rfl := Option.some.inj hs
            refine h.setThread ht ⟨hk.1, ⟨h.paged, hk.1.2⟩, fun _ => UInt64.le_refl _, hk.2, ?_⟩
              (by simp [Thread.claim])
            -- an offset out of the range is read only when the offset has left it
            intro hlt
            refine UInt64.not_le.mp fun hle => ?_
            exact UInt64.not_le.mpr hlt (UInt64.le_trans (hk.2 hle) hle)
        | exchanging size allocOffset second =>
            simp only [State.next] at hs
            split at hs
            · next ho =>
                obtain rfl := Option.some.inj hs
                obtain ⟨hfirst, hsecond⟩ := hf _ ht ho
                exact h.exchange ht ho hfirst hsecond
            · obtain rfl := Option.some.inj hs
              exact h.setThread ht ⟨⟨h.paged, hk.1.2⟩, fun _ => UInt64.le_refl _⟩
                (by simp [Thread.claim])
        | checking size allocOffset =>
            simp only [State.next] at hs
            split at hs
            · obtain rfl := Option.some.inj hs
              exact h.setThread ht hk fun r hr => hr
            · next hle =>
                obtain rfl := Option.some.inj hs
                have hcom := State.Claim.of_commited hk h.commited (UInt64.not_lt.mp hle)
                refine h.leave ht fun r hr => ?_
                obtain rfl := Option.some.inj hr
                exact ⟨rfl, hk, hcom⟩
        | locking size allocOffset =>
            simp only [State.next, commit_rest] at hs
            split at hs
            · next hlt =>
                split at hs
                · obtain rfl := Option.some.inj hs
                  exact h.leave ht (by simp)
                · next hle =>
                    obtain rfl := Option.some.inj hs
                    have hc := h.commit hlt (UInt64.not_lt.mp hle)
                    have hk' := hc.knows _ (List.mem_of_getElem? ht)
                    have hcom := State.Claim.of_commited hk' hc.commited (UInt64.le_refl _)
                    refine hc.leave ht fun r hr => ?_
                    obtain rfl := Option.some.inj hr
                    exact ⟨rfl, hk', hcom⟩
            · next hle =>
                obtain rfl := Option.some.inj hs
                have hcom := State.Claim.of_commited hk h.commited (UInt64.not_lt.mp hle)
                refine h.leave ht fun r hr => ?_
                obtain rfl := Option.some.inj hr
                exact ⟨rfl, hk, hcom⟩
      · cases hs

/-- What `allocPages` promises of the regions it has returned. -/
structure State.Sound (s : State) : Prop where
  pages : ∀ r, some r ∈ s.returned → r.size ≠ 0 → r.Paged ∧ s.Within r
  commited : ∀ r, some r ∈ s.returned → r.size ≠ 0 →
    ∀ x, r.offset.toNat ≤ x → x < r.stop → ∃ c ∈ s.commits, c.offset.toNat ≤ x ∧ x < c.stop
  apart : s.returned.Pairwise fun x y => ∀ r ∈ x, ∀ r' ∈ y, r.size ≠ 0 → r'.size ≠ 0 → r.Apart r'

theorem Inv.sound {s : State} (h : Inv s) : s.Sound where
  pages r hr _ := ⟨(h.returned r hr).1, (h.returned r hr).2.1⟩
  commited r hr _ x _ hx := h.commits x (Nat.lt_of_lt_of_le hx (h.returned r hr).2.2.2)
  apart := h.returnedApart.imp fun h r hr r' hr' _ _ => h r hr r' hr'

/-- **The regions of `allocPages`.**  In every run in which no compare-exchange passes the largest
size and comes back to the range, the regions that have been returned are pages of the range,
committed, and no two of them share an address. -/
theorem allocPages_sound {size : UInt64} {threads : Nat} {s : State}
    (h : Steps step Fits (create size threads) s) : s.Sound :=
  (h.invariant (P := Inv) Inv.step (inv_create size threads)).sound

/-- Two threads; the compare-exchange of the second one fails at first. -/
def twoCalls : List Action :=
  [.allocPages 0 4096, .allocPages 1 5000, .next 0, .next 1, .next 0, .next 1, .next 0, .next 1,
    .next 1, .next 1, .next 1, .next 1, .next 0]

def twoCallsEnd : State where
  size := 65536
  commitedSize := 12288
  allocOffset := 12288
  commits := [⟨0, 12288⟩]
  threads := [.idle, .idle]
  returned := [some ⟨0, 4096⟩, some ⟨4096, 8192⟩]

theorem allocPages_sound_twoCalls :
    exec step (create 65536 2) twoCalls = some twoCallsEnd ∧ twoCallsEnd.Sound := by
  have hexec : exec step (create 65536 2) twoCalls = some twoCallsEnd := by decide
  have hfits : Allowed step Fits (create 65536 2) twoCalls := by decide
  exact ⟨hexec, allocPages_sound (exec_steps hfits hexec)⟩

/-- A call that asks for more than the range has and gets nothing, and a page after it. -/
def tooMuch : List Action :=
  .allocPages 0 (0 - pageSize) :: .replicate 5 (.next 0) ++
    .allocPages 0 pageSize :: .replicate 4 (.next 0)

def tooMuchEnd : State where
  size := 65536
  threads := [.idle]
  returned := [some ⟨0 - pageSize, pageSize⟩, none]

/-- The page is the one below the range. -/
theorem allocPages_unsound :
    ∃ s, Steps step Free (create 65536 1) s ∧ some ⟨0 - pageSize, pageSize⟩ ∈ s.returned ∧
      ¬ s.Sound := by
  have hexec : exec step (create 65536 1) tooMuch = some tooMuchEnd := by decide
  have hmem : some ⟨0 - pageSize, pageSize⟩ ∈ tooMuchEnd.returned := List.mem_cons_self
  refine ⟨tooMuchEnd, exec_steps (allowed_free _ _) hexec, hmem, fun h => ?_⟩
  have hin : MemRegion.stop ⟨0 - pageSize, pageSize⟩ ≤ tooMuchEnd.size.toNat :=
    (h.pages _ hmem (by decide)).2
  exact absurd hin (by decide)

end HostVirtualMemory

end MyEngine.Memory
