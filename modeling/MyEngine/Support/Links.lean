import Mathlib.Data.List.Nodup
import Mathlib.Data.Nat.Notation

/-!
# Support — Links

The nodes that are passed from a pointer on, by a link each node has, before another pointer is
reached.

* `Seg`: from one pointer to another; `Seg.append_iff` cuts a segment in two.
* `Seg.congr`: only the links of its nodes matter.
* `Seg.relink`: the last link, or the pointer to no node at all, is set to something else.
* `Seg.unlink`, `Seg.link`: one node is taken out, or put in.
-/

namespace MyEngine.Links

variable {ν : Type*} {next next' : ν → Option ν} {p q : Option ν} {x : ν} {xs ys : List ν}

/-- From `p` on, `next` passes the nodes `xs` and comes to `q`. -/
def Seg (next : ν → Option ν) : Option ν → List ν → Option ν → Prop
  | p, [], q      => p = q
  | p, x :: xs, q => p = some x ∧ Seg next (next x) xs q

namespace Seg

theorem cons (h : Seg next (next x) xs q) : Seg next (some x) (x :: xs) q := ⟨rfl, h⟩

theorem append_iff : Seg next p (xs ++ ys) q ↔ ∃ m, Seg next p xs m ∧ Seg next m ys q := by
  induction xs generalizing p with
  | nil =>
      constructor
      · intro h
        exact ⟨p, rfl, h⟩
      · rintro ⟨m, rfl, h⟩
        exact h
  | cons x xs ih => simp only [List.cons_append, Seg, ih, and_assoc, exists_and_left]

theorem append {m : Option ν} (h : Seg next p xs m) (h' : Seg next m ys q) :
    Seg next p (xs ++ ys) q := append_iff.2 ⟨m, h, h'⟩

/-- A segment through `x` is one to `x` and one from its link on. -/
theorem append_cons_iff : Seg next p (xs ++ x :: ys) q ↔
    Seg next p xs (some x) ∧ Seg next (next x) ys q := by
  rw [append_iff]
  constructor
  · rintro ⟨m, h, rfl, h'⟩
    exact ⟨h, h'⟩
  · rintro ⟨h, h'⟩
    exact ⟨some x, h, rfl, h'⟩

theorem congr (h : Seg next p xs q) (hx : ∀ x ∈ xs, next' x = next x) : Seg next' p xs q := by
  induction xs generalizing p with
  | nil => exact h
  | cons x xs ih =>
      refine ⟨h.1, ?_⟩
      rw [hx x List.mem_cons_self]
      exact ih h.2 fun y hy => hx y (List.mem_cons_of_mem _ hy)

/-- The pointer to the first node, where the segment ends at no node. -/
theorem eq_head? (h : Seg next p xs none) : p = xs.head? := by
  cases xs with
  | nil => exact h
  | cons x xs => exact h.1

/-- The end of the segment is moved: its last node is linked to it, or the pointer itself is set. -/
theorem relink {p' : Option ν} (h : Seg next p xs q) (q' : Option ν)
    (hother : ∀ x ∈ xs, xs.getLast? ≠ some x → next' x = next x)
    (hnil : xs = [] → p' = q') (hlast : ∀ x, xs.getLast? = some x → p' = p ∧ next' x = q')
    (hnodup : xs.Nodup) : Seg next' p' xs q' := by
  cases hxs : xs.getLast? with
  | none =>
      obtain rfl := List.getLast?_eq_none_iff.1 hxs
      exact hnil rfl
  | some a =>
      obtain ⟨hp, ha⟩ := hlast a hxs
      obtain ⟨init, rfl⟩ := List.getLast?_eq_some_iff.1 hxs
      rw [append_cons_iff] at h ⊢
      refine ⟨hp ▸ h.1.congr fun x hx => ?_, ha⟩
      refine hother x (List.mem_append_left _ hx) fun hax => ?_
      obtain rfl := Option.some.inj (hxs.symm.trans hax)
      exact (List.nodup_append.1 hnodup).2.2 a hx a (List.mem_singleton_self a) rfl

/-- The node `x` is taken out: what was linked to it is linked to what comes behind it. -/
theorem unlink [DecidableEq ν] {p' : Option ν} (h : Seg next p (xs ++ x :: ys) none)
    (hnodup : (xs ++ ys).Nodup)
    (hp : p' = if xs.getLast? = none then next x else p)
    (hnext : ∀ y ∈ xs ++ ys, next' y = if xs.getLast? = some y then next x else next y) :
    Seg next' p' (xs ++ ys) none := by
  obtain ⟨hxs, hys⟩ := append_cons_iff.1 h
  have hdisjoint := (List.nodup_append.1 hnodup).2.2
  refine append (hxs.relink (next x) (fun y hy hlast => ?_) (fun hnil => ?_) (fun y hy => ?_)
    (List.nodup_append.1 hnodup).1) (hys.congr fun y hy => ?_)
  · rw [hnext y (List.mem_append_left _ hy), if_neg hlast]
  · rw [hp, hnil]
    rfl
  · rw [hp, hnext y (List.mem_append_left _ (List.mem_of_getLast? hy)), hy]
    exact ⟨rfl, if_pos rfl⟩
  · rw [hnext y (List.mem_append_right _ hy),
      if_neg fun hlast => hdisjoint y (List.mem_of_getLast? hlast) y hy rfl]

/-- The node `x` is put in: what was linked to what comes behind it is linked to it. -/
theorem link [DecidableEq ν] {p' : Option ν} (h : Seg next p (xs ++ ys) none)
    (hnodup : (xs ++ ys).Nodup)
    (hp : p' = if xs.getLast? = none then some x else p)
    (hnext : ∀ y ∈ xs ++ ys, next' y = if xs.getLast? = some y then some x else next y)
    (hx : next' x = ys.head?) : Seg next' p' (xs ++ x :: ys) none := by
  obtain ⟨m, hxs, hys⟩ := append_iff.1 h
  have hdisjoint := (List.nodup_append.1 hnodup).2.2
  refine append (hxs.relink (some x) (fun y hy hlast => ?_) (fun hnil => ?_) (fun y hy => ?_)
    (List.nodup_append.1 hnodup).1) (cons ?_)
  · rw [hnext y (List.mem_append_left _ hy), if_neg hlast]
  · rw [hp, hnil]
    rfl
  · rw [hp, hnext y (List.mem_append_left _ (List.mem_of_getLast? hy)), hy]
    exact ⟨rfl, if_pos rfl⟩
  · rw [hx, ← hys.eq_head?]
    refine hys.congr fun y hy => ?_
    rw [hnext y (List.mem_append_right _ hy),
      if_neg fun hlast => hdisjoint y (List.mem_of_getLast? hlast) y hy rfl]

end Seg

end MyEngine.Links
