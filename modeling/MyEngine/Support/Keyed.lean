import Mathlib.Data.List.Nodup

/-!
# Support — Keyed

Lists whose elements are told apart by a key, as those that are searched for an id.

* `find?_key`: what is found under the key of an element is the element.
* `key_inj`: an element is known by its key.
* `eraseP_key`: what is erased under a key is all that has it.
-/

namespace MyEngine.Support

variable {α κ : Type*} {key : α → κ} {l : List α} {a b : α}

theorem key_inj (h : (l.map key).Nodup) (ha : a ∈ l) (hb : b ∈ l) (hkey : key a = key b) : a = b :=
  List.inj_on_of_nodup_map h ha hb hkey

variable [DecidableEq κ]

theorem find?_key (h : (l.map key).Nodup) (ha : a ∈ l) :
    l.find? (fun b => key b = key a) = some a := by
  have hsome : (l.find? fun b => key b = key a).isSome :=
    List.find?_isSome.2 ⟨a, ha, decide_eq_true rfl⟩
  obtain ⟨b, hfind⟩ := Option.isSome_iff_exists.1 hsome
  have hkey : key b = key a := by simpa using List.find?_some hfind
  rw [hfind, key_inj h (List.mem_of_find?_eq_some hfind) ha hkey]

/-- What is found under a key has the key. -/
theorem find?_key_some {k : κ} (h : l.find? (fun b => key b = k) = some a) : a ∈ l ∧ key a = k := by
  refine ⟨List.mem_of_find?_eq_some h, ?_⟩
  simpa using List.find?_some h

/-- Nothing is found under a key that no element has. -/
theorem find?_key_none {k : κ} : l.find? (fun b => key b = k) = none ↔ k ∉ l.map key := by
  simp only [List.find?_eq_none, decide_eq_true_eq, List.mem_map, not_exists, not_and]

/-- One element at most has the key. -/
theorem eraseP_key (h : (l.map key).Nodup) (k : κ) :
    l.eraseP (fun b => key b = k) = l.filter fun b => key b ≠ k := by
  induction l with
  | nil => rfl
  | cons a l ih =>
      rw [List.map_cons, List.nodup_cons] at h
      by_cases hk : key a = k
      · subst hk
        rw [List.eraseP_cons_of_pos (by simp), List.filter_cons_of_neg (by simp)]
        refine (List.filter_eq_self.2 fun b hb => ?_).symm
        have hne : key b ≠ key a := fun hkey => h.1 (hkey ▸ List.mem_map_of_mem hb)
        simpa using hne
      · rw [List.eraseP_cons_of_neg (by simpa using hk),
          List.filter_cons_of_pos (by simpa using hk), ih h.2]

end MyEngine.Support
