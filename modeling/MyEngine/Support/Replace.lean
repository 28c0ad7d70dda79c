import Mathlib.Tactic.TypeStar

/-!
# Support — Replace

A list in which one entry is replaced, such as the threads of a machine when one of them moves, or
in which one comes at the end.
-/

namespace MyEngine

variable {α : Type*} {l : List α} {i j : Nat} {x y z : α}

/-- The entry that has come. -/
theorem getElem?_replaced (h : l[i]? = some x) (y : α) : (l.set i y)[i]? = some y :=
  List.getElem?_set_self (List.getElem?_eq_some_iff.1 h).1

/-- An entry has come, or has been there. -/
theorem getElem?_set_cases (h : (l.set i y)[j]? = some z) :
    i = j ∧ y = z ∨ i ≠ j ∧ l[j]? = some z := by
  by_cases hij : i = j
  · subst hij
    obtain ⟨hlt, -⟩ := List.getElem?_eq_some_iff.1 h
    rw [List.length_set] at hlt
    rw [List.getElem?_set_self hlt] at h
    exact .inl ⟨rfl, Option.some.inj h⟩
  · rw [List.getElem?_set_ne hij] at h
    exact .inr ⟨hij, h⟩

theorem forall_mem_set {P : α → Prop} (h : ∀ z ∈ l, P z) (hy : P y) : ∀ z ∈ l.set i y, P z := by
  intro z hz
  rcases List.mem_or_eq_of_mem_set hz with hz | rfl
  · exact h z hz
  · exact hy

theorem forall_mem_modify {P : α → Prop} {f : α → α} (h : ∀ z ∈ l, P z)
    (hf : ∀ z, l[i]? = some z → P (f z)) : ∀ z ∈ l.modify i f, P z := by
  intro z hz
  obtain ⟨j, hj⟩ := List.getElem?_of_mem hz
  rw [List.getElem?_modify] at hj
  split at hj
  next heq =>
    subst heq
    obtain ⟨x, hx, rfl⟩ := Option.map_eq_some_iff.1 hj
    exact hf x hx
  next hne => exact h z (List.mem_of_getElem? (by simpa using hj))

/-- What is before an entry and what is behind it. -/
theorem exists_split (h : l[i]? = some x) :
    ∃ l₁ l₂, l = l₁ ++ x :: l₂ ∧ l.eraseIdx i = l₁ ++ l₂ ∧ ∀ y, l.set i y = l₁ ++ y :: l₂ := by
  obtain ⟨hlt, hget⟩ := List.getElem?_eq_some_iff.1 h
  refine ⟨l.take i, l.drop (i + 1), ?_, List.eraseIdx_eq_take_drop_succ l i, fun y => ?_⟩
  · rw [← hget, List.getElem_cons_drop, List.take_append_drop]
  · rw [List.set_eq_take_append_cons_drop, if_pos hlt]

/-- What the new entry has besides is what the list has besides. -/
theorem flatMap_set_perm {β : Type*} {f : α → List β} {extra : List β} (h : l[i]? = some x)
    (hf : (f y).Perm (extra ++ f x)) : ((l.set i y).flatMap f).Perm (extra ++ l.flatMap f) := by
  obtain ⟨l₁, l₂, rfl, -, hset⟩ := exists_split h
  rw [hset]
  simp only [List.flatMap_append, List.flatMap_cons]
  have hmiddle : (l₁.flatMap f ++ (f y ++ l₂.flatMap f)).Perm
      (l₁.flatMap f ++ (extra ++ (f x ++ l₂.flatMap f))) := by
    rw [← List.append_assoc extra]
    exact (hf.append_right _).append_left _
  exact hmiddle.trans (List.perm_append_comm_assoc ..)

/-- What the new entry does not have is what the list does not have any more. -/
theorem perm_flatMap_set {β : Type*} {f : α → List β} {extra : List β} (h : l[i]? = some x)
    (hf : (f x).Perm (extra ++ f y)) : (l.flatMap f).Perm (extra ++ (l.set i y).flatMap f) := by
  have hback : (l.set i y).set i x = l := by
    obtain ⟨hlt, hget⟩ := List.getElem?_eq_some_iff.1 h
    rw [List.set_set, ← hget, List.set_getElem_self]
  have hperm := flatMap_set_perm (getElem?_replaced h y) hf
  rwa [hback] at hperm

section

variable {β : Type*} [DecidableEq β] {b : β}

theorem count_flatMap_set (h : l[i]? = some x) (y : α) (f : α → List β) :
    ((l.set i y).flatMap f).count b + (f x).count b = (l.flatMap f).count b + (f y).count b := by
  obtain ⟨l₁, l₂, rfl, -, hset⟩ := exists_split h
  simp only [hset, List.flatMap_append, List.flatMap_cons, List.count_append]
  omega

theorem count_flatMap_eraseIdx (h : l[i]? = some x) (f : α → List β) :
    ((l.eraseIdx i).flatMap f).count b + (f x).count b = (l.flatMap f).count b := by
  obtain ⟨l₁, l₂, rfl, herase, -⟩ := exists_split h
  simp only [herase, List.flatMap_append, List.flatMap_cons, List.count_append]
  omega

end

/-- Only the entry that is replaced goes. -/
theorem eq_or_mem_set (h : l[i]? = some x) (hz : z ∈ l) (y : α) : z = x ∨ z ∈ l.set i y := by
  obtain ⟨j, hj⟩ := List.getElem?_of_mem hz
  by_cases hij : i = j
  · subst hij
    exact .inl (Option.some.inj (hj.symm.trans h))
  · refine .inr (List.mem_of_getElem? (i := j) ?_)
    rw [List.getElem?_set_ne hij, hj]

/-- An entry of a list with one more is the one that has come, or has been there. -/
theorem getElem?_concat_cases (h : (l ++ [x])[j]? = some z) :
    l[j]? = some z ∨ j = l.length ∧ x = z := by
  rw [List.getElem?_append] at h
  split at h
  next => exact .inl h
  next hnot =>
    obtain ⟨hlt, hget⟩ := List.getElem?_eq_some_iff.1 h
    rw [List.length_singleton] at hlt
    exact .inr ⟨by omega, by simpa using hget⟩

theorem getElem?_concat_of_some (h : l[j]? = some z) (x : α) : (l ++ [x])[j]? = some z := by
  rw [List.getElem?_append_left (List.getElem?_eq_some_iff.1 h).1, h]

end MyEngine
