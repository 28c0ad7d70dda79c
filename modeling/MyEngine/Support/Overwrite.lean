import Mathlib.Data.List.Basic

/-!
# Support — Overwrite

A list written over from a position on, as far as the new elements reach; the list grows where
they reach past its end.

* `getElem?_overwrite`: the new elements stand at their places, the others are unchanged.
* `overwrite_append`: what is behind the new elements' beginning and written over does not count.
-/

namespace MyEngine.Support

variable {α : Type*}

def overwrite (s : List α) (pos : Nat) (new : List α) : List α :=
  s.take pos ++ new ++ s.drop (pos + new.length)

variable {s t new : List α} {pos n : Nat}

theorem overwrite_nil : overwrite s pos [] = s := by
  rw [overwrite, List.append_nil]
  exact List.take_append_drop pos s

/-- Behind the last element nothing is written over. -/
theorem overwrite_length : overwrite s s.length new = s ++ new := by
  rw [overwrite, List.take_length, List.drop_eq_nil_of_le (Nat.le_add_right _ _), List.append_nil]

theorem length_overwrite (h : pos ≤ s.length) :
    (overwrite s pos new).length = max s.length (pos + new.length) := by
  simp only [overwrite, List.length_append, List.length_take, List.length_drop]
  omega

/-- **Frame**: the new elements at their places, the old ones at all others. -/
theorem getElem?_overwrite (h : pos ≤ s.length) (i : Nat) :
    (overwrite s pos new)[i]? =
      if pos ≤ i ∧ i < pos + new.length then new[i - pos]? else s[i]? := by
  have hlen : (s.take pos).length = pos := by rw [List.length_take, Nat.min_eq_left h]
  rw [overwrite, List.append_assoc]
  rcases Nat.lt_or_ge i pos with hlt | hge
  · rw [List.getElem?_append_left (hlen.symm ▸ hlt), List.getElem?_take_of_lt hlt,
      if_neg fun hin => Nat.not_le_of_lt hlt hin.1]
  · rw [List.getElem?_append_right (hlen.symm ▸ hge), hlen]
    rcases Nat.lt_or_ge i (pos + new.length) with hlt | hge'
    · rw [List.getElem?_append_left (by omega), if_pos ⟨hge, hlt⟩]
    · rw [List.getElem?_append_right (by omega), List.getElem?_drop,
        if_neg fun hin => Nat.not_lt_of_le hge' hin.2]
      congr 1
      omega

/-- The end of the list does not matter where the new elements go over all of it. -/
theorem overwrite_append (h : pos ≤ s.length) (hnew : s.length + t.length ≤ pos + new.length) :
    overwrite (s ++ t) pos new = overwrite s pos new := by
  rw [overwrite, overwrite, List.take_append_of_le_length h,
    List.drop_eq_nil_of_le (List.length_append ▸ hnew), List.drop_eq_nil_of_le (by omega)]

/-- Up to the last of the new elements. -/
theorem take_overwrite_end (h : pos ≤ s.length) (new : List α) :
    (overwrite s pos new).take (pos + new.length) = s.take pos ++ new := by
  have hlength : (s.take pos ++ new).length = pos + new.length := by
    rw [List.length_append, List.length_take, Nat.min_eq_left h]
  rw [overwrite, ← hlength, List.take_left]

/-- In a prefix that holds all of the new elements. -/
theorem take_overwrite (h : pos ≤ s.length) (hn : pos + new.length ≤ n) :
    (overwrite s pos new).take n = overwrite (s.take n) pos new := by
  have hlen : (s.take pos ++ new).length = pos + new.length := by
    rw [List.length_append, List.length_take, Nat.min_eq_left h]
  rw [overwrite, overwrite, List.take_append, List.take_of_length_le (hlen.symm ▸ hn), hlen,
    List.take_take, Nat.min_eq_left (by omega), List.drop_take]

/-- A prefix that the new elements do not reach. -/
theorem take_overwrite_of_le (h : pos ≤ s.length) (hn : n ≤ pos) :
    (overwrite s pos new).take n = s.take n := by
  have hlen : (s.take pos).length = pos := by rw [List.length_take, Nat.min_eq_left h]
  rw [overwrite, List.append_assoc, List.take_append_of_le_length (hlen.symm ▸ hn), List.take_take,
    Nat.min_eq_left hn]

end MyEngine.Support
