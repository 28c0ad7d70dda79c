import Mathlib.Algebra.Group.Nat.Defs
import MyEngine.Memory.HostVirtualMemory

/-!
# Memory — HostVirtualMemoryRequests

Calls of `allocPages` one after the other, until the reserved range is used up.

* `State.request`: a call as a whole; `steps_requests`: what the steps of the threads come to.
* `State.Keeps`: what a refused call leaves as it was, and which calls are granted.
* `Tight`: the offset, the committed size and what has been granted are one number.
-/

namespace MyEngine.Memory.HostVirtualMemory

open Runs

/-- The size in whole pages. -/
def wholePages (size : UInt64) : ℕ := (size.toNat + 4095) / 4096 * 4096

namespace State

/-- `allocPages` of a thread, with no other call on its way. -/
def request (s : State) (t : ℕ) (size : UInt64) : State :=
  let size := alignedSize size pageSize
  let requiredCommitedSize := s.allocOffset + size
  if s.commitedSize < requiredCommitedSize then
    let commitSize := requiredCommitedSize - s.commitedSize
    let newCommitedSize := s.commitedSize + commitSize
    if s.size < newCommitedSize then
      { s with allocOffset := s.allocOffset + size }.leave t none
    else
      { s with
        allocOffset := s.allocOffset + size
        commits := ⟨s.commitedSize, commitSize⟩ :: s.commits
        commitedSize := newCommitedSize }.leave t (some ⟨s.allocOffset, size⟩)
  else
    { s with allocOffset := s.allocOffset + size }.leave t (some ⟨s.allocOffset, size⟩)

/-- What the last call has returned. -/
def answer (s : State) : Option MemRegion := s.returned.head?.join

/-- The sizes of the regions granted so far. -/
def granted (s : State) : ℕ := (s.returned.map fun r => (r.map (·.size.toNat)).getD 0).sum

@[simp] theorem answer_leave (s : State) (t : ℕ) (region : Option MemRegion) :
    (s.leave t region).answer = region := rfl

/-- A call that is refused leaves the offset and the committed size, and a call is granted when
the regions so far and its own pages fit the reserved size together. -/
structure Keeps (s : State) (t : ℕ) (size : UInt64) : Prop where
  refused : (s.request t size).answer = none →
    (s.request t size).allocOffset = s.allocOffset ∧
      (s.request t size).commitedSize = s.commitedSize
  granted : (s.request t size).answer.isSome = true ↔ s.granted + wholePages size ≤ s.size.toNat

end State

/-- A call of a thread, with the size it asks for. -/
def callStep (s : State) (call : ℕ × UInt64) : Option State := some (s.request call.1 call.2)

/-! ### The steps of a call -/

/-- From the call to its return the thread takes four steps, or five with the locked section. -/
theorem exec_request {s : State} {t : ℕ} (size : UInt64) (ht : s.threads[t]? = some .idle) :
    ∃ k, exec step s (.allocPages t size :: .replicate k (.next t)) = some (s.request t size) := by
  have hlt : t < s.threads.length := (List.getElem?_eq_some_iff.mp ht).1
  have hset : ∀ thread : Thread, (s.threads.set t thread)[t]? = some thread := fun _ =>
    List.getElem?_set_self hlt
  by_cases hcom : s.commitedSize < s.allocOffset + alignedSize size pageSize
  · refine ⟨5, ?_⟩
    simp only [List.replicate, exec, step, ht, State.next, State.setThread, State.leave,
      Option.bind_some, hset, List.set_set, if_true, if_pos hcom, State.request]
    split <;> rfl
  · refine ⟨4, ?_⟩
    simp only [List.replicate, exec, step, ht, State.next, State.setThread, State.leave,
      Option.bind_some, hset, List.set_set, if_true, if_neg hcom, State.request]

theorem request_threads (s : State) (t : ℕ) (size : UInt64) :
    (s.request t size).threads = s.threads.set t .idle := by
  simp only [State.request]
  split
  · split <;> rfl
  · rfl

/-- The calls of threads that are not in `allocPages`, one after the other, are a run of them. -/
theorem steps_requests {s : State} (calls : List (ℕ × UInt64))
    (hidle : ∀ call ∈ calls, s.threads[call.1]? = some .idle) :
    Steps step Free s (calls.foldl (fun s call => s.request call.1 call.2) s) := by
  induction calls generalizing s with
  | nil => exact .refl _
  | cons call calls ih =>
      obtain ⟨hcall, hcalls⟩ := List.forall_mem_cons.mp hidle
      obtain ⟨k, hexec⟩ := exec_request call.2 hcall
      refine (exec_steps (allowed_free _ _) hexec).trans (ih fun other hother => ?_)
      rw [request_threads, List.getElem?_set]
      split
      · next heq => rw [if_pos (List.getElem?_eq_some_iff.mp hcall).1]
      · exact hcalls other hother

/-! ### What a call finds and leaves -/

theorem toNat_and_pageMask (x : UInt64) :
    (x &&& ~~~(pageSize - 1)).toNat = x.toNat / 4096 * 4096 := by
  have hmask : (~~~(pageSize - 1)).toNat = (2 ^ 52 - 1) <<< 12 := by decide
  have hdiv : x.toNat / 4096 * 4096 = (x.toNat >>> 12) <<< 12 := by
    rw [Nat.shiftLeft_eq, Nat.shiftRight_eq_div_pow]
  rw [UInt64.toNat_and, hmask, hdiv]
  refine Nat.eq_of_testBit_eq fun i => ?_
  simp only [Nat.testBit_and, Nat.testBit_shiftLeft, Nat.testBit_shiftRight,
    Nat.testBit_two_pow_sub_one]
  by_cases hi : 12 ≤ i
  · have hbit : 12 + (i - 12) = i := by omega
    simp only [hi, hbit, decide_true, Bool.true_and]
    by_cases hbound : i < 64
    · have hlow : i - 12 < 52 := by omega
      simp only [hlow, decide_true, Bool.and_true]
    · have hhigh : x.toNat.testBit i = false :=
        Nat.testBit_lt_two_pow (Nat.lt_of_lt_of_le x.toNat_lt (Nat.pow_le_pow_right (by decide)
          (Nat.le_of_not_lt hbound)))
      simp only [hhigh, Bool.false_and]
  · simp only [hi, decide_false, Bool.false_and, Bool.and_false]

/-- A size that is close to the largest one is rounded to nothing. -/
theorem alignedSize_pageSize (size : UInt64) :
    (alignedSize size pageSize).toNat =
      if wholePages size < 2 ^ 64 then wholePages size else 0 := by
  have hsize := size.toNat_lt
  have hsum : (size + pageSize - 1).toNat = (size.toNat + 4095) % 2 ^ 64 := by
    have hadd : size + pageSize - 1 = size + 4095 := by
      rw [UInt64.sub_eq_add_neg, UInt64.add_assoc]
      exact congrArg (size + ·) (by decide)
    rw [hadd, UInt64.toNat_add]
    rfl
  rw [alignedSize, toNat_and_pageMask, hsum, wholePages]
  split
  · next hlt => rw [Nat.mod_eq_of_lt (by omega)]
  · next hge => omega

/-- Nothing is lost between the offset, the committed size and the regions. -/
structure Tight (s : State) : Prop where
  commited : s.commitedSize = s.allocOffset
  granted : s.allocOffset.toNat = s.granted
  within : s.granted ≤ s.size.toNat

theorem tight_create (size : UInt64) (threads : ℕ) : Tight (create size threads) where
  commited := rfl
  granted := rfl
  within := Nat.zero_le _

section Calls
variable {s : State} (t : ℕ) {size : UInt64}

/-- A call that fits is granted, and all stays one number. -/
theorem Tight.request (h : Tight s) (hfits : s.granted + wholePages size ≤ s.size.toNat) :
    Tight (s.request t size) ∧ (s.request t size).answer.isSome = true ∧
      (s.request t size).granted = s.granted + wholePages size ∧
        (s.request t size).size = s.size := by
  have hsize := s.size.toNat_lt
  have hpages : (alignedSize size pageSize).toNat = wholePages size := by
    rw [alignedSize_pageSize, if_pos (by omega)]
  have hsum : (s.allocOffset + alignedSize size pageSize).toNat = s.granted + wholePages size := by
    rw [UInt64.toNat_add, hpages, h.granted, Nat.mod_eq_of_lt (by omega)]
  have hroom : ¬ s.size < s.allocOffset + alignedSize size pageSize := by
    rw [UInt64.lt_iff_toNat_lt, hsum]
    omega
  obtain ⟨hoffset, hcommited, hreturned, hreserved⟩ :
      (s.request t size).allocOffset = s.allocOffset + alignedSize size pageSize ∧
        (s.request t size).commitedSize = s.allocOffset + alignedSize size pageSize ∧
        (s.request t size).returned =
          some ⟨s.allocOffset, alignedSize size pageSize⟩ :: s.returned ∧
        (s.request t size).size = s.size := by
    simp only [State.request, h.commited, commit_rest, if_neg hroom]
    split
    · exact ⟨rfl, rfl, rfl, rfl⟩
    · next hle =>
        -- only a call for nothing finds enough committed
        have hnothing : s.allocOffset = s.allocOffset + alignedSize size pageSize := by
          rw [UInt64.lt_iff_toNat_lt, hsum, h.granted] at hle
          rw [← UInt64.toNat_inj, hsum, h.granted]
          omega
        exact ⟨rfl, hnothing, rfl, rfl⟩
  have hgranted : (s.request t size).granted = s.granted + wholePages size := by
    rw [State.granted, hreturned, List.map_cons, List.sum_cons, Option.map_some, Option.getD_some,
      hpages, Nat.add_comm]
    rfl
  refine ⟨⟨hcommited.trans hoffset.symm, ?_, ?_⟩, ?_, hgranted, hreserved⟩
  · rw [hoffset, hsum, hgranted]
  · rw [hgranted, hreserved]
    exact hfits
  · rw [State.answer, hreturned]
    rfl

/-- A call that does not fit is refused with the offset behind it, or granted because a sum or a
rounded size has passed the largest one. -/
theorem Tight.not_keeps (h : Tight s) (hfits : s.size.toNat < s.granted + wholePages size) :
    ¬ s.Keeps t size := by
  intro hkeeps
  have hrefused : (s.request t size).answer = none := by
    rw [← Option.not_isSome_iff_eq_none, hkeeps.granted]
    omega
  have hkept := (hkeeps.refused hrefused).1
  simp only [State.request, h.commited, commit_rest] at hrefused hkept
  split at hrefused
  · next hlt =>
      split at hrefused
      · next hover =>
          -- refused, and the offset has moved all the same
          rw [if_pos hlt, if_pos hover] at hkept
          have hback : s.allocOffset + alignedSize size pageSize = s.allocOffset := hkept
          rw [hback] at hlt
          exact UInt64.lt_irrefl _ hlt
      · exact absurd hrefused (by simp)
  -- a sum behind the largest size looks committed
  · exact absurd hrefused (by simp)

theorem Tight.keeps_iff_fits (h : Tight s) :
    s.Keeps t size ↔ s.granted + wholePages size ≤ s.size.toNat := by
  constructor
  · intro hkeeps
    by_contra hover
    exact h.not_keeps t (Nat.lt_of_not_le hover) hkeeps
  · intro hfits
    obtain ⟨-, hanswer, -, -⟩ := h.request t hfits
    refine ⟨fun hnone => ?_, iff_of_true hanswer hfits⟩
    rw [hnone] at hanswer
    cases hanswer

end Calls

/-- What is left decides over the calls that follow. -/
theorem Tight.allowed_iff {s : State} (h : Tight s) (calls : List (ℕ × UInt64)) :
    Allowed callStep (fun s call => s.Keeps call.1 call.2) s calls ↔
      s.granted + (calls.map fun call => wholePages call.2).sum ≤ s.size.toNat := by
  induction calls generalizing s with
  | nil => exact iff_of_true trivial h.within
  | cons call calls ih =>
      rw [Allowed, h.keeps_iff_fits, List.map_cons, List.sum_cons]
      constructor
      · rintro ⟨hfits, hrest⟩
        obtain ⟨htight, -, hgranted, hsize⟩ := h.request call.1 hfits
        have hle := (ih htight).1 (hrest _ rfl)
        rw [hgranted, hsize] at hle
        omega
      · intro hle
        have hfits : s.granted + wholePages call.2 ≤ s.size.toNat := by omega
        refine ⟨hfits, fun s₁ hs₁ => ?_⟩
        obtain rfl := Option.some.inj hs₁
        obtain ⟨htight, -, hgranted, hsize⟩ := h.request call.1 hfits
        refine (ih htight).2 ?_
        rw [hgranted, hsize]
        omega

/-- **The calls of `allocPages`.**  Every call is answered by what has been granted, and leaves
nothing behind when it is refused, as long as none is refused: if and only if the pages of all the
calls fit the reserved size together. -/
theorem requests_iff (size : UInt64) (threads : ℕ) (calls : List (ℕ × UInt64)) :
    Allowed callStep (fun s call => s.Keeps call.1 call.2) (create size threads) calls ↔
      (calls.map fun call => wholePages call.2).sum ≤ (create size threads).size.toNat := by
  rw [(tight_create size threads).allowed_iff]
  exact iff_of_eq (congrArg (· ≤ _) (Nat.zero_add _))

/-- Two granularities of a range of one, then a page of it: both are refused. -/
theorem requests_lost :
    ¬ Allowed callStep (fun s call => s.Keeps call.1 call.2) (create 65536 1)
        [(0, 131072), (0, 4096)] ∧
      ((create 65536 1).request 0 131072).answer = none ∧
      (((create 65536 1).request 0 131072).request 0 4096).answer = none := by
  refine ⟨fun hrun => ?_, by decide, by decide⟩
  have hkept := (hrun.1.refused (by decide)).1
  exact absurd hkept (by decide)

end MyEngine.Memory.HostVirtualMemory
