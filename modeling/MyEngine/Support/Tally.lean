import Mathlib.Algebra.GroupWithZero.Nat
import Mathlib.Algebra.BigOperators.Group.List.Basic
import Mathlib.Data.List.Nodup

/-!
# Support — Tally

The sum of a weight over a list whose entries are added at the end and replaced in place: the
list of the calls in progress of a concurrent object, each weighed by what it holds.
-/

namespace MyEngine

variable {α : Type*}

/-- The weight `f` summed over `l`. -/
def tally (f : α → Nat) (l : List α) : Nat := (l.map f).sum

@[simp] theorem tally_nil (f : α → Nat) : tally f [] = 0 := rfl

@[simp] theorem tally_cons (f : α → Nat) (a : α) (l : List α) :
    tally f (a :: l) = f a + tally f l := by
  simp [tally]

@[simp] theorem tally_append (f : α → Nat) (l₁ l₂ : List α) :
    tally f (l₁ ++ l₂) = tally f l₁ + tally f l₂ := by
  simp [tally]

theorem tally_add (f g : α → Nat) (l : List α) :
    tally (fun a => f a + g a) l = tally f l + tally g l := by
  induction l with
  | nil => rfl
  | cons a l ih => simp [ih]; omega

/-- Replacing an entry moves its weight. -/
theorem tally_set (f : α → Nat) {l : List α} {i : Nat} {a : α} (h : l[i]? = some a) (b : α) :
    tally f (l.set i b) + f a = tally f l + f b := by
  induction l generalizing i with
  | nil => simp at h
  | cons c l ih =>
      cases i with
      | zero =>
          obtain rfl : c = a := by simpa using h
          simp; omega
      | succ i =>
          have := ih (by simpa using h)
          simp; omega

/-- Replacing an entry by one that looks the same. -/
theorem map_set_of_eq {β : Type*} {f : α → β} {l : List α} {i : Nat} {a b : α}
    (h : l[i]? = some a) (hf : f b = f a) : (l.set i b).map f = l.map f := by
  obtain ⟨hi, rfl⟩ := List.getElem?_eq_some_iff.1 h
  rw [List.map_set, hf, ← List.getElem_map f (h := by rwa [List.length_map]),
    List.set_getElem_self]

/-- An entry weighs at most what the list does. -/
theorem le_tally (f : α → Nat) {l : List α} {i : Nat} {a : α} (h : l[i]? = some a) :
    f a ≤ tally f l := by
  induction l generalizing i with
  | nil => simp at h
  | cons c l ih =>
      cases i with
      | zero =>
          obtain rfl : c = a := by simpa using h
          simp
      | succ i =>
          have := ih (by simpa using h)
          simp; omega

/-- Two entries weigh at most what the list does. -/
theorem add_le_tally (f : α → Nat) {l : List α} {i j : Nat} {a b : α} (hij : i ≠ j)
    (hi : l[i]? = some a) (hj : l[j]? = some b) : f a + f b ≤ tally f l := by
  induction l generalizing i j with
  | nil => simp at hi
  | cons c l ih =>
      rw [tally_cons]
      cases i with
      | zero =>
          obtain rfl : c = a := by simpa using hi
          cases j with
          | zero => exact absurd rfl hij
          | succ j => exact Nat.add_le_add_left (le_tally f (by simpa using hj)) _
      | succ i =>
          have hi : l[i]? = some a := by simpa using hi
          cases j with
          | zero =>
              obtain rfl : c = b := by simpa using hj
              rw [Nat.add_comm]
              exact Nat.add_le_add_left (le_tally f hi) _
          | succ j =>
              have hle := ih (by simpa using hij) hi (by simpa using hj)
              exact Nat.le_trans hle (Nat.le_add_left _ _)

theorem tally_eq_zero {f : α → Nat} {l : List α} : tally f l = 0 ↔ ∀ a ∈ l, f a = 0 := by
  induction l with
  | nil => simp
  | cons a l ih => simp [ih]

theorem tally_le_tally {f g : α → Nat} {l : List α} (h : ∀ a ∈ l, f a ≤ g a) :
    tally f l ≤ tally g l := by
  induction l with
  | nil => simp
  | cons a l ih =>
      have h₁ := h a (by simp)
      have h₂ := ih fun b hb => h b (by simp [hb])
      simp; omega

theorem tally_congr {f g : α → Nat} {l : List α} (h : ∀ a ∈ l, f a = g a) :
    tally f l = tally g l := by
  rw [tally, tally, List.map_congr_left h]

/-- Entries that are replaced by others that weigh no more. -/
theorem tally_le_of_forall₂ (f : α → Nat) {l l' : List α}
    (h : List.Forall₂ (fun a b => f b ≤ f a) l l') : tally f l' ≤ tally f l := by
  induction h with
  | nil => exact Nat.le_refl _
  | cons hle _ ih => exact Nat.add_le_add hle ih

/-- Changing the weight of one entry of a list without duplicates. -/
theorem tally_update {f g : α → Nat} {l : List α} {a : α} (hn : l.Nodup) (ha : a ∈ l)
    (h : ∀ b ∈ l, b ≠ a → g b = f b) : tally g l + f a = tally f l + g a := by
  obtain ⟨l₁, l₂, rfl⟩ := List.append_of_mem ha
  have hn := List.nodup_middle.1 hn
  have hmem : a ∉ l₁ ++ l₂ := (List.nodup_cons.1 hn).1
  have hrest : tally g (l₁ ++ l₂) = tally f (l₁ ++ l₂) := by
    refine tally_congr fun b hb => h b ?_ fun hab => hmem (hab ▸ hb)
    exact List.perm_middle.mem_iff.2 (List.mem_cons_of_mem _ hb)
  simp only [tally_append, tally_cons] at hrest ⊢
  omega

theorem tally_replicate (f : α → Nat) (n : Nat) (a : α) :
    tally f (.replicate n a) = n * f a := by
  induction n with
  | zero => rw [Nat.zero_mul]; rfl
  | succ n ih => rw [List.replicate_succ, tally_cons, ih, Nat.succ_mul, Nat.add_comm]

theorem tally_map {β : Type*} (f : β → Nat) (g : α → β) (l : List α) :
    tally f (l.map g) = tally (fun a => f (g a)) l := by
  rw [tally, tally, List.map_map]
  rfl

theorem tally_filter (f : α → Nat) (p : α → Bool) (l : List α) :
    tally f l = tally f (l.filter p) + tally f (l.filter fun a => !p a) := by
  induction l with
  | nil => rfl
  | cons a l ih => cases h : p a <;> simp [h, ih] <;> omega

theorem length_flatMap_eq {β : Type*} (c : α → List β) (l : List α) :
    (l.flatMap c).length = tally (fun a => (c a).length) l := by
  rw [List.length_flatMap, tally]

theorem flatMap_filter_of_nil {β : Type*} {c : α → List β} {p : α → Bool} {l : List α}
    (h : ∀ a ∈ l, p a = false → c a = []) : l.flatMap c = (l.filter p).flatMap c := by
  induction l with
  | nil => rfl
  | cons a l ih =>
      have ih := ih fun b hb => h b (List.mem_cons_of_mem _ hb)
      cases hp : p a with
      | true => simp [hp, ih]
      | false => simp [hp, ih, h a List.mem_cons_self hp]

/-- A part of a list adds up to all of it when what is left out adds nothing. -/
theorem flatMap_eq_takeWhile_iff {β : Type*} (c : α → List β) (p q : α → Bool) (l : List α) :
    l.flatMap c = ((l.filter p).takeWhile q).flatMap c ↔
      (∀ a ∈ (l.filter p).dropWhile q, c a = []) ∧ ∀ a ∈ l, p a = false → c a = [] := by
  constructor
  · intro h
    have hlen := congrArg List.length h
    have hf := tally_filter (fun a => (c a).length) p l
    have hs := congrArg (tally fun a => (c a).length)
      (List.takeWhile_append_dropWhile (p := q) (l := l.filter p))
    rw [tally_append] at hs
    rw [length_flatMap_eq, length_flatMap_eq] at hlen
    have h₁ : tally (fun a => (c a).length) ((l.filter p).dropWhile q) = 0 := by omega
    have h₂ : tally (fun a => (c a).length) (l.filter fun a => !p a) = 0 := by omega
    refine ⟨fun a ha => List.length_eq_zero_iff.mp (tally_eq_zero.mp h₁ a ha), fun a ha hp => ?_⟩
    exact List.length_eq_zero_iff.mp (tally_eq_zero.mp h₂ a (by simp [ha, hp]))
  · rintro ⟨h₁, h₂⟩
    rw [flatMap_filter_of_nil h₂]
    conv_lhs => rw [← List.takeWhile_append_dropWhile (p := q) (l := l.filter p)]
    rw [List.flatMap_append, List.flatMap_eq_nil_iff.mpr h₁, List.append_nil]

theorem takeWhile_congr {p q : α → Bool} {l : List α} (h : ∀ a ∈ l, p a = q a) :
    l.takeWhile p = l.takeWhile q := by
  induction l with
  | nil => rfl
  | cons a l ih =>
      have ih := ih fun b hb => h b (List.mem_cons_of_mem _ hb)
      rw [List.takeWhile_cons, List.takeWhile_cons, h a List.mem_cons_self, ih]

end MyEngine
