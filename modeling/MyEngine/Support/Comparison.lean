import Mathlib.Algebra.Order.Ring.Int

/-!
# Support — Comparison

Comparisons that answer with `-1`, `0` or `1`.  Where the answer is how keys of a linear order
compare (`Compares`), the laws of a comparison hold: `Compares.neg`, `Compares.trans` and
`Compares.isStrictWeakOrder`.
-/

namespace MyEngine.Support

variable {α β : Type*} [LinearOrder β] {cmp : α → α → ℤ} {key : α → β} {a b c : α}

/-- The keys of `a` and `b` are in the order that `cmp` answers. -/
inductive Compared (cmp : α → α → ℤ) (key : α → β) (a b : α) : Prop where
  | lt (hkey : key a < key b) (hcmp : cmp a b = -1)
  | eq (hkey : key a = key b) (hcmp : cmp a b = 0)
  | gt (hkey : key b < key a) (hcmp : cmp a b = 1)

def Compares (cmp : α → α → ℤ) (key : α → β) : Prop := ∀ a b, Compared cmp key a b

namespace Compares

theorem lt_zero_iff (h : Compares cmp key) (a b : α) : cmp a b < 0 ↔ key a < key b := by
  cases h a b with
  | lt hkey hcmp => simp [hkey, hcmp]
  | eq hkey hcmp => simp [hkey, hcmp]
  | gt hkey hcmp => simp [hkey.le, hcmp]

theorem le_zero_iff (h : Compares cmp key) (a b : α) : cmp a b ≤ 0 ↔ key a ≤ key b := by
  cases h a b with
  | lt hkey hcmp => simp [hkey.le, hcmp]
  | eq hkey hcmp => simp [hkey, hcmp]
  | gt hkey hcmp => simp [hkey, hcmp]

theorem eq_zero_iff (h : Compares cmp key) (a b : α) : cmp a b = 0 ↔ key a = key b := by
  cases h a b with
  | lt hkey hcmp => simp [hkey.ne, hcmp]
  | eq hkey hcmp => simp [hkey, hcmp]
  | gt hkey hcmp => simp [hkey.ne', hcmp]

theorem neg (h : Compares cmp key) (a b : α) : cmp a b = -cmp b a := by
  cases h a b with
  | lt hkey hcmp =>
      cases h b a with
      | lt hkey' _ => exact absurd hkey hkey'.not_gt
      | eq hkey' _ => exact absurd hkey' hkey.ne'
      | gt _ hcmp' => rw [hcmp, hcmp']
  | eq hkey hcmp => rw [hcmp, (h.eq_zero_iff b a).2 hkey.symm, neg_zero]
  | gt hkey hcmp =>
      cases h b a with
      | lt _ hcmp'  => rw [hcmp, hcmp', neg_neg]
      | eq hkey' _  => exact absurd hkey' hkey.ne
      | gt hkey' _  => exact absurd hkey hkey'.not_gt

theorem trans (h : Compares cmp key) (hab : cmp a b ≤ 0) (hbc : cmp b c ≤ 0) : cmp a c ≤ 0 :=
  (h.le_zero_iff a c).2 (((h.le_zero_iff a b).1 hab).trans ((h.le_zero_iff b c).1 hbc))

/-- What is not ordered has one key. -/
theorem incomparable_iff (h : Compares cmp key) (a b : α) :
    (¬ cmp a b < 0 ∧ ¬ cmp b a < 0) ↔ key a = key b := by
  rw [h.lt_zero_iff, h.lt_zero_iff, not_lt, not_lt]
  exact ⟨fun hle => le_antisymm hle.2 hle.1, fun heq => ⟨heq.ge, heq.le⟩⟩

theorem isStrictWeakOrder (h : Compares cmp key) :
    IsStrictWeakOrder α fun a b => cmp a b < 0 where
  irrefl a := by
    rw [h.lt_zero_iff]
    exact lt_irrefl (key a)
  trans a b c hab hbc := by
    rw [h.lt_zero_iff] at hab hbc ⊢
    exact hab.trans hbc
  incomp_trans a b c hab hbc := by
    rw [h.incomparable_iff] at hab hbc ⊢
    exact hab.trans hbc

end Compares

end MyEngine.Support
