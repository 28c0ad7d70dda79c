import Mathlib.Algebra.Order.Ring.Nat

/-!
# Io — SourceStream

A stream that is read, of which each `read` may return fewer bytes than it is asked for.

* `taken`: what is read in blocks, up to the first block that is not full.
* `taken_eq_iff`: that is the whole stream just when no read before the end is short
  (`FullReads`).
-/

namespace MyEngine.Io

variable {B : Type*}

/-- The bytes that are left, and how many the next calls of `read` return at most: the end is where
nothing is left. -/
structure SourceStream (B : Type*) where
  bytes : List B
  limit : ℕ → ℕ
  limit_pos : ∀ i, 0 < limit i

namespace SourceStream

def read (src : SourceStream B) (count : ℕ) : List B × SourceStream B :=
  let readCount := min (src.limit 0) count
  (src.bytes.take readCount,
    ⟨src.bytes.drop readCount, fun i => src.limit (i + 1), fun i => src.limit_pos (i + 1)⟩)

variable {src : SourceStream B} {count block : ℕ}

theorem read_append (src : SourceStream B) (count : ℕ) :
    (src.read count).1 ++ (src.read count).2.bytes = src.bytes :=
  List.take_append_drop _ _

theorem length_read (src : SourceStream B) (count : ℕ) :
    (src.read count).1.length = min (min (src.limit 0) count) src.bytes.length :=
  List.length_take

theorem length_read_le (src : SourceStream B) (count : ℕ) : (src.read count).1.length ≤ count := by
  rw [length_read]
  exact (Nat.min_le_left _ _).trans (Nat.min_le_right _ _)

theorem length_add_length (src : SourceStream B) (count : ℕ) :
    (src.read count).1.length + (src.read count).2.bytes.length = src.bytes.length := by
  rw [← List.length_append, read_append]

/-- Nothing is returned at the end only. -/
theorem bytes_eq_nil (hcount : 0 < count) (h : (src.read count).1 = []) : src.bytes = [] := by
  have hlength := src.length_read count
  rw [h, List.length_nil] at hlength
  have hpos := src.limit_pos 0
  exact List.eq_nil_of_length_eq_zero (by omega)

/-- What blocks of `block` bytes read, up to the first that is not full. -/
def taken (block : ℕ) (src : SourceStream B) : List B :=
  if _h : 0 < block ∧ block ≤ (src.read block).1.length then
    (src.read block).1 ++ taken block (src.read block).2
  else (src.read block).1
termination_by src.bytes.length
decreasing_by
  have hlength := src.length_add_length block
  omega

theorem taken_of_short (h : (src.read block).1.length < block) :
    src.taken block = (src.read block).1 := by
  rw [taken, dif_neg fun hfull => Nat.not_le_of_lt h hfull.2]

theorem taken_of_full (hblock : 0 < block) (h : block ≤ (src.read block).1.length) :
    src.taken block = (src.read block).1 ++ (src.read block).2.taken block := by
  rw [taken, dif_pos ⟨hblock, h⟩]

/-- Each read returns a block, or all that is left of the stream. -/
def FullReads (block : ℕ) (src : SourceStream B) : Prop :=
  ∀ i, block * i < src.bytes.length → min block (src.bytes.length - block * i) ≤ src.limit i

theorem fullReads_next (hblock : 0 < block) (h : block ≤ (src.read block).1.length) :
    src.FullReads block ↔ (src.read block).2.FullReads block := by
  have hlength := src.length_read block
  have hrest := src.length_add_length block
  have hle := src.length_read_le block
  constructor
  · intro hall i hi
    have hnext := hall (i + 1) (by rw [Nat.mul_succ]; omega)
    rw [Nat.mul_succ] at hnext
    change _ ≤ src.limit (i + 1)
    rw [show (src.read block).2.bytes.length - block * i =
      src.bytes.length - (block * i + block) by omega]
    exact hnext
  · intro hall i hi
    cases i with
    | zero => omega
    | succ i =>
        have hnext := hall i (by rw [Nat.mul_succ] at hi; omega)
        change _ ≤ src.limit (i + 1) at hnext
        rw [show (src.read block).2.bytes.length - block * i =
          src.bytes.length - (block * i + block) by omega] at hnext
        rwa [Nat.mul_succ]

theorem taken_eq_iff (hblock : 0 < block) (src : SourceStream B) :
    src.taken block = src.bytes ↔ src.FullReads block := by
  induction src using taken.induct block with
  | case1 src hfull ih =>
      rw [fullReads_next hblock hfull.2, ← ih, taken_of_full hblock hfull.2]
      conv_lhs => rw [← src.read_append block]
      exact List.append_right_inj (src.read block).1
  | case2 src hshort =>
      have hlt : (src.read block).1.length < block :=
        Nat.lt_of_not_le fun hle => hshort ⟨hblock, hle⟩
      have hlength := src.length_read block
      rw [taken_of_short hlt]
      constructor
      · intro heq i hi
        rw [heq] at hlt hlength
        have hzero : i = 0 := by
          by_contra hne
          have hmul := Nat.le_mul_of_pos_right block (Nat.pos_of_ne_zero hne)
          omega
        subst hzero
        omega
      · intro hall
        rcases Nat.eq_zero_or_pos src.bytes.length with hzero | hpos
        · rw [hzero] at hlength
          rw [List.eq_nil_of_length_eq_zero hzero]
          exact List.eq_nil_of_length_eq_zero (by omega)
        · have hfirst := hall 0 (by omega)
          exact List.take_of_length_le (by omega)

end SourceStream

end MyEngine.Io
