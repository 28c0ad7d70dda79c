import Mathlib.Algebra.Order.Ring.Nat
import Mathlib.Data.List.Pairwise

/-!
# Support — Spans

The addresses from a base on, as many as a size says.

* `Apart`, `Within`: two spans share no address; one is a part of the other.
* `Apart.of_pairwise`: different places of a list.
* `apart_blocks`: the blocks a span is cut into are apart.
-/

namespace MyEngine.Support

structure Span where
  base : ℕ
  size : ℕ
  deriving DecidableEq, Repr

namespace Span

variable {a b c : Span} {x : ℕ}

/-- The first address behind. -/
def stop (a : Span) : ℕ := a.base + a.size

instance : Membership ℕ Span := ⟨fun a x => a.base ≤ x ∧ x < a.stop⟩

theorem mem_def : x ∈ a ↔ a.base ≤ x ∧ x < a.stop := Iff.rfl

theorem base_mem (h : 0 < a.size) : a.base ∈ a := ⟨Nat.le_refl _, Nat.lt_add_of_pos_right h⟩

def Apart (a b : Span) : Prop := ∀ x ∈ a, x ∉ b

def Within (a b : Span) : Prop := b.base ≤ a.base ∧ a.stop ≤ b.stop

instance : Decidable (a.Within b) := inferInstanceAs (Decidable (_ ∧ _))

theorem Apart.symm (h : a.Apart b) : b.Apart a := fun x hb ha => h x ha hb

theorem apart_of_stop_le (h : a.stop ≤ b.base) : a.Apart b := fun _ ha hb =>
  absurd ha.2 (Nat.not_lt_of_le (h.trans hb.1))

theorem apart_iff : a.Apart b ↔ a.size = 0 ∨ b.size = 0 ∨ a.stop ≤ b.base ∨ b.stop ≤ a.base := by
  constructor
  · intro h
    by_contra hne
    -- otherwise the larger base is in both
    refine h (max a.base b.base) ?_ ?_ <;> simp only [mem_def, stop] at hne ⊢ <;> omega
  · rintro (h | h | h | h)
    · intro x ha
      exact absurd ha.2 (Nat.not_lt_of_le (by simpa [stop, h] using ha.1))
    · intro x _ hb
      exact absurd hb.2 (Nat.not_lt_of_le (by simpa [stop, h] using hb.1))
    · exact apart_of_stop_le h
    · exact (apart_of_stop_le h).symm

instance : Decidable (a.Apart b) := decidable_of_iff _ apart_iff.symm

theorem Within.mem (h : a.Within b) (hx : x ∈ a) : x ∈ b :=
  ⟨h.1.trans hx.1, Nat.lt_of_lt_of_le hx.2 h.2⟩

/-- What is within spans that are apart is apart. -/
theorem Apart.mono {a' b' : Span} (h : a.Apart b) (ha : a'.Within a) (hb : b'.Within b) :
    a'.Apart b' := fun x hx hx' => h x (ha.mem hx) (hb.mem hx')

/-- A piece of a span. -/
theorem within_of_le {n size : ℕ} (h : n + size ≤ a.size) : Within ⟨a.base + n, size⟩ a := by
  refine ⟨Nat.le_add_right _ _, ?_⟩
  simp only [stop, Nat.add_assoc]
  exact Nat.add_le_add_left h _

/-- Two places of a list of pairwise apart spans. -/
theorem Apart.of_pairwise {ι : Type*} {f : ι → Span} {xs : List ι} {x y : ι}
    (h : xs.Pairwise fun x y => (f x).Apart (f y)) (hx : x ∈ xs) (hy : y ∈ xs) (hne : x ≠ y) :
    (f x).Apart (f y) :=
  have : Std.Symm fun x y => (f x).Apart (f y) := ⟨fun _ _ => symm⟩
  h.forall hx hy hne

/-- The blocks of one size from a base on. -/
theorem apart_blocks {base size k l : ℕ} (hne : k ≠ l) :
    Apart ⟨base + k * size, size⟩ ⟨base + l * size, size⟩ := by
  have hle : ∀ {i j : ℕ}, i < j → base + i * size + size ≤ base + j * size := by
    intro i j hij
    have := Nat.mul_le_mul_right size hij
    rw [Nat.succ_mul] at this
    rw [Nat.add_assoc]
    exact Nat.add_le_add_left this base
  rcases Nat.lt_or_gt_of_ne hne with hlt | hlt
  · exact apart_of_stop_le (hle hlt)
  · exact Apart.symm (apart_of_stop_le (hle hlt))

end Span

end MyEngine.Support
