import Mathlib.Data.List.Infix
import Mathlib.Data.List.Induction

/-!
# Support — Search

The first place a pattern stands in a list, as `std::string_view::find` gives it.  For a
nonempty pattern `find_eq_some_iff` says what the answer is; from it, what a prefix of the list
answers (`find_of_prefix`), which is what a reader that sees the list chunk by chunk needs.

The last place an element stands (`findLast`), with the list cut there.
-/

namespace MyEngine.Support

variable {α : Type*} [DecidableEq α]

/-- The position of the first occurrence of `pat`. -/
def find (pat : List α) : List α → Option Nat
  | []     => if pat = [] then some 0 else none
  | c :: s => if pat <+: c :: s then some 0 else (find pat s).map (· + 1)

/-- The same, from position `pos` on. -/
def findFrom (pat s : List α) (pos : Nat) : Option Nat :=
  (find pat (s.drop pos)).map (· + pos)

theorem find_cons (pat : List α) (c : α) (s : List α) :
    find pat (c :: s) = if pat <+: c :: s then some 0 else (find pat s).map (· + 1) := rfl

theorem find_eq_some_iff {pat s : List α} (hp : pat ≠ []) {n : Nat} :
    find pat s = some n ↔ pat <+: s.drop n ∧ ∀ m < n, ¬ pat <+: s.drop m := by
  induction s generalizing n with
  | nil => simp [find, hp]
  | cons c s ih =>
      rw [find_cons]
      split
      case isTrue h =>
        constructor
        · intro he
          obtain rfl : 0 = n := Option.some.inj he
          exact ⟨h, fun m hm => absurd hm (Nat.not_lt_zero m)⟩
        · rintro ⟨-, hm⟩
          rcases Nat.eq_zero_or_pos n with rfl | hn
          · rfl
          · exact absurd h (hm 0 hn)
      case isFalse h =>
        cases n with
        | zero => simp [h]
        | succ n =>
            simp only [Option.map_eq_some_iff, Nat.add_right_cancel_iff, exists_eq_right, ih,
              List.drop_succ_cons]
            refine and_congr_right fun _ => ⟨fun hm m hlt => ?_, fun hm m hlt => ?_⟩
            · cases m with
              | zero => exact h
              | succ m => exact hm m (Nat.lt_of_succ_lt_succ hlt)
            · exact hm (m + 1) (Nat.succ_lt_succ hlt)

theorem length_le_of_find {pat s : List α} {n : Nat} (hp : pat ≠ [])
    (h : find pat s = some n) : n + pat.length ≤ s.length := by
  have hpre := ((find_eq_some_iff hp).1 h).1.length_le
  have hpos := List.length_pos_of_ne_nil hp
  simp only [List.length_drop] at hpre
  omega

/-- A prefix of `s` answers as `s` does once it reaches past the occurrence, and not before. -/
theorem find_of_prefix {pat s u : List α} {n : Nat} (hp : pat ≠ []) (hu : u <+: s)
    (h : find pat s = some n) :
    find pat u = if n + pat.length ≤ u.length then some n else none := by
  obtain ⟨v, rfl⟩ := hu
  have ⟨hat, hbefore⟩ := (find_eq_some_iff hp).1 h
  have hdrop : ∀ m, pat <+: u.drop m → pat <+: (u ++ v).drop m := by
    intro m hm
    have hpos := List.length_pos_of_ne_nil hp
    have hle := hm.length_le
    rw [List.length_drop] at hle
    rw [List.drop_append_of_le_length (by omega)]
    exact hm.trans (List.prefix_append _ _)
  split
  case isTrue hle =>
    refine (find_eq_some_iff hp).2 ⟨?_, fun m hm hpre => hbefore m hm (hdrop m hpre)⟩
    rw [List.drop_append_of_le_length (by omega)] at hat
    exact List.prefix_of_prefix_length_le hat (List.prefix_append _ _)
      (by rw [List.length_drop]; omega)
  case isFalse hle =>
    by_contra hne
    obtain ⟨m, hm⟩ := Option.ne_none_iff_exists'.1 hne
    have hlen := length_le_of_find hp hm
    have hm' := hdrop m ((find_eq_some_iff hp).1 hm).1
    rcases Nat.lt_or_ge m n with hlt | hge
    · exact hbefore m hlt hm'
    · omega

/-- The pattern is sought behind a part in which it does not begin. -/
theorem find_append_of_not_prefix {pat l s : List α}
    (h : ∀ u v, l = u ++ v → v ≠ [] → ¬ pat <+: v ++ s) :
    find pat (l ++ s) = (find pat s).map (· + l.length) := by
  induction l with
  | nil => simp
  | cons d l ih =>
      have hne : ¬ pat <+: d :: (l ++ s) := h [] (d :: l) rfl (List.cons_ne_nil d l)
      have htail := ih fun u v hl => h (d :: u) v (congrArg (d :: ·) hl)
      rw [List.cons_append, find_cons, if_neg hne, htail, Option.map_map]
      rcases find pat s with _ | n
      · rfl
      · exact congrArg some (Nat.add_assoc n l.length 1)

/-- What cannot begin the pattern is passed over. -/
theorem find_append {pat : List α} {c : α} (hc : pat.head? = some c) {l : List α} (hl : c ∉ l)
    (s : List α) : find pat (l ++ s) = (find pat s).map (· + l.length) := by
  refine find_append_of_not_prefix fun u v huv hv hpre => ?_
  obtain ⟨t, ht⟩ := hpre
  obtain ⟨d, v, rfl⟩ := List.exists_cons_of_ne_nil hv
  have hd : (pat ++ t).head? = some d := by rw [ht]; rfl
  rw [List.head?_append, hc, Option.some_or] at hd
  obtain rfl := Option.some.inj hd
  exact hl (huv ▸ List.mem_append_right u List.mem_cons_self)

theorem find_self_append {pat : List α} (hp : pat ≠ []) (s : List α) :
    find pat (pat ++ s) = some 0 :=
  (find_eq_some_iff hp).2 ⟨List.prefix_append _ _, fun m hm => absurd hm (Nat.not_lt_zero m)⟩

/-- The position of the last `c`. -/
def findLast (c : α) : List α → Option Nat
  | []     => none
  | d :: s =>
      match findLast c s with
      | some pos => some (pos + 1)
      | none     => if d = c then some 0 else none

theorem findLast_of_notMem {c : α} {s : List α} (h : c ∉ s) : findLast c s = none := by
  induction s with
  | nil => rfl
  | cons d s ih =>
      rw [List.mem_cons, not_or] at h
      rw [findLast, ih h.2]
      exact if_neg (Ne.symm h.1)

theorem findLast_append_cons {c : α} (u : List α) {v : List α} (h : c ∉ v) :
    findLast c (u ++ c :: v) = some u.length := by
  induction u with
  | nil =>
      rw [List.nil_append, findLast, findLast_of_notMem h]
      exact if_pos rfl
  | cons d u ih =>
      rw [List.cons_append, findLast, ih]
      rfl

/-- The list has no `c`, or is cut at the last one. -/
theorem exists_last (c : α) (s : List α) : c ∉ s ∨ ∃ u v, s = u ++ c :: v ∧ c ∉ v := by
  induction s with
  | nil => exact .inl List.not_mem_nil
  | cons d s ih =>
      rcases ih with h | ⟨u, v, rfl, hv⟩
      · by_cases hd : d = c
        · exact .inr ⟨[], s, congrArg (· :: s) hd, h⟩
        · exact .inl fun hmem => (List.mem_cons.1 hmem).elim (fun he => hd he.symm) h
      · exact .inr ⟨d :: u, v, rfl, hv⟩

/-- What the list ends in, cut off. -/
theorem exists_append_replicate (a : α) (s : List α) :
    ∃ t n, s = t ++ List.replicate n a ∧ t.getLast? ≠ some a := by
  induction s using List.reverseRecOn with
  | nil => exact ⟨[], 0, rfl, by simp⟩
  | append_singleton s c ih =>
      by_cases hc : c = a
      · obtain ⟨t, n, rfl, ht⟩ := ih
        exact ⟨t, n + 1, by rw [hc, List.replicate_succ', List.append_assoc], ht⟩
      · exact ⟨s ++ [c], 0, by simp, by simpa using hc⟩

end MyEngine.Support
