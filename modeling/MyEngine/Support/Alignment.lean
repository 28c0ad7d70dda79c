import Mathlib.Algebra.Order.Ring.Nat
import Mathlib.Algebra.Ring.Nat
import MyEngine.Support.Spans

/-!
# Support — Alignment

Addresses and sizes that are moved up to the next multiple of an alignment.

* `gap`: how far up an address is moved.
* `dvd_gap`: a gap is a multiple of what the address is a multiple of.
* `roundUp`: the next multiple.
* `dvd_of_le`: of two powers of two the smaller one divides the larger one.
* `within_iff`: when a header and what is behind it, moved up together, stay in their block.
-/

namespace MyEngine.Support.Alignment

variable {align k x y : ℕ}

def gap (align x : ℕ) : ℕ := if 0 < x % align then align - x % align else 0

theorem gap_lt (h : 0 < align) : gap align x < align := by
  unfold gap
  split
  · next hpos => exact Nat.sub_lt h hpos
  · exact h

theorem dvd_add_gap (h : 0 < align) : align ∣ x + gap align x := by
  have hle := (Nat.mod_lt x h).le
  unfold gap
  split
  · have hdiv := Nat.div_add_mod x align
    refine ⟨x / align + 1, ?_⟩
    rw [Nat.mul_add_one]
    omega
  · next hpos => exact Nat.dvd_of_mod_eq_zero (Nat.eq_zero_of_not_pos hpos)

/-- A multiple of a larger unit needs no gap. -/
theorem gap_eq_zero (h : align ∣ x) : gap align x = 0 := by
  rw [gap, Nat.mod_eq_zero_of_dvd h, if_neg (Nat.lt_irrefl 0)]

theorem dvd_gap (hx : k ∣ x) (h : align ∣ k ∨ k ∣ align) : k ∣ gap align x := by
  rcases h with h | h
  · rw [gap_eq_zero (h.trans hx)]
    exact Nat.dvd_zero k
  · unfold gap
    split
    · exact Nat.dvd_sub h ((Nat.dvd_mod_iff h).2 hx)
    · exact Nat.dvd_zero k

def roundUp (align x : ℕ) : ℕ := (x + align - 1) / align * align

theorem dvd_roundUp : align ∣ roundUp align x := Nat.dvd_mul_left _ _

theorem le_roundUp (h : 0 < align) : x ≤ roundUp align x := by
  have hlt : x + align - 1 < roundUp align x + align := Nat.lt_div_mul_add h
  omega

theorem roundUp_lt (h : 0 < align) : roundUp align x < x + align := by
  have hle : roundUp align x ≤ x + align - 1 := Nat.div_mul_le_self _ _
  omega

theorem roundUp_le (h : x ≤ y) (hy : align ∣ y) : roundUp align x ≤ y := by
  rcases Nat.eq_zero_or_pos align with rfl | hpos
  · exact (Nat.mul_zero _).trans_le (Nat.zero_le y)
  · obtain ⟨q, rfl⟩ := hy
    rw [roundUp, Nat.mul_comm]
    refine Nat.mul_le_mul_left _ (Nat.le_of_lt_succ ?_)
    rw [Nat.div_lt_iff_lt_mul hpos, Nat.succ_mul, Nat.mul_comm q]
    omega

theorem dvd_of_le (hx : x.isPowerOfTwo) (hy : y.isPowerOfTwo) (h : x ≤ y) : x ∣ y := by
  obtain ⟨i, rfl⟩ := hx
  obtain ⟨j, rfl⟩ := hy
  exact Nat.pow_dvd_pow 2 ((Nat.pow_le_pow_iff_right Nat.one_lt_two).1 h)

/-- A header whose room is a multiple of `k`, and what is behind it. -/
theorem within_iff {block : Span} {header room size gap : ℕ} (hroom : header ≤ room) :
    (⟨block.base + gap, header⟩ : Span).Within block ∧
        (⟨block.base + gap + room, size⟩ : Span).Within block ↔
      room + size + gap ≤ block.size := by
  simp only [Span.Within, Span.stop]
  omega

end MyEngine.Support.Alignment
