import Mathlib.Data.List.Nodup

/-!
# Support — Assoc

Maps kept as lists of pairs, the first pair of a key being the one that counts.  `List.lookup` reads
them; `put` writes.

* `lookup_put_self`, `lookup_put_of_ne`: what is read behind a write.
* `put_of_lookup`: writing what is there changes nothing.
* `lookup_map`: reading commutes with a function of the values.
* `lookup_reverse`: the order of the pairs, where each key is there once.
* `lookup_zip`: what is read from two lists side by side.
-/

namespace MyEngine.Support

variable {κ α β : Type*} [BEq κ] [LawfulBEq κ]

/-- The value of the key is replaced, or the key is new and comes last. -/
def put (key : κ) (value : α) : List (κ × α) → List (κ × α)
  | []            => [(key, value)]
  | entry :: rest => if key == entry.1 then (key, value) :: rest else entry :: put key value rest

theorem lookup_cons_of_ne {key key' : κ} (h : key ≠ key') (value : α) (l : List (κ × α)) :
    ((key', value) :: l).lookup key = l.lookup key := by
  rw [List.lookup_cons, beq_false_of_ne h]

@[simp] theorem lookup_put_self (key : κ) (value : α) (l : List (κ × α)) :
    (put key value l).lookup key = some value := by
  induction l with
  | nil => exact List.lookup_cons_self
  | cons entry rest ih =>
      rw [put]
      split
      · exact List.lookup_cons_self
      · next hne => rw [List.lookup_cons, eq_false_of_ne_true hne, ih]

theorem lookup_put_of_ne {key key' : κ} (h : key ≠ key') (value : α) (l : List (κ × α)) :
    (put key' value l).lookup key = l.lookup key := by
  induction l with
  | nil => rw [put, lookup_cons_of_ne h]
  | cons entry rest ih =>
      rw [put]
      split
      · next heq =>
        have hentry : key ≠ entry.1 := fun hkey => h (hkey.trans (eq_of_beq heq).symm)
        rw [lookup_cons_of_ne h, lookup_cons_of_ne hentry entry.2]
      · rw [List.lookup_cons, List.lookup_cons, ih]

theorem put_of_lookup {key : κ} {value : α} {l : List (κ × α)} (h : l.lookup key = some value) :
    put key value l = l := by
  induction l with
  | nil => cases h
  | cons entry rest ih =>
      rw [List.lookup_cons] at h
      rw [put]
      split
      · next heq =>
        rw [heq] at h
        rw [← Option.some.inj h, eq_of_beq heq]
      · next hne =>
        rw [eq_false_of_ne_true hne] at h
        rw [ih h]

/-- A new key comes last. -/
theorem put_of_lookup_none {key : κ} {value : α} {l : List (κ × α)} (h : l.lookup key = none) :
    put key value l = l ++ [(key, value)] := by
  induction l with
  | nil => rfl
  | cons entry rest ih =>
      rw [List.lookup_cons] at h
      rw [put]
      split
      · next heq =>
        rw [heq] at h
        cases h
      · next hne =>
        rw [eq_false_of_ne_true hne] at h
        rw [ih h, List.cons_append]

omit [LawfulBEq κ] in
theorem lookup_map (f : α → β) (key : κ) (l : List (κ × α)) :
    (l.map fun entry => (entry.1, f entry.2)).lookup key = (l.lookup key).map f := by
  induction l with
  | nil => rfl
  | cons entry rest ih =>
      rw [List.map_cons, List.lookup_cons, List.lookup_cons, ih]
      split <;> rfl

theorem mem_of_lookup {key : κ} {value : α} {l : List (κ × α)} (h : l.lookup key = some value) :
    (key, value) ∈ l := by
  obtain ⟨l₁, l₂, rfl, -⟩ := List.lookup_eq_some_iff.1 h
  exact List.mem_append_right _ List.mem_cons_self

/-- A key that is there is read. -/
theorem exists_lookup {key : κ} {value : α} {l : List (κ × α)} (h : (key, value) ∈ l) :
    ∃ first, l.lookup key = some first := by
  refine Option.isSome_iff_exists.1 (List.lookup_isSome_iff.2 ⟨_, h, beq_self_eq_true key⟩)

theorem lookup_of_mem {key : κ} {value : α} {l : List (κ × α)} (hnodup : (l.map Prod.fst).Nodup)
    (h : (key, value) ∈ l) : l.lookup key = some value := by
  obtain ⟨first, hfirst⟩ := exists_lookup h
  have heq := List.inj_on_of_nodup_map hnodup (mem_of_lookup hfirst) h rfl
  rw [hfirst, (Prod.mk.inj heq).2]

/-- The order does not matter where each key is there once. -/
theorem lookup_reverse {l : List (κ × α)} (hnodup : (l.map Prod.fst).Nodup) (key : κ) :
    l.reverse.lookup key = l.lookup key := by
  have hreverse : (l.reverse.map Prod.fst).Nodup := by
    rw [List.map_reverse]
    exact List.nodup_reverse.2 hnodup
  refine Option.ext fun value => ⟨fun h => ?_, fun h => ?_⟩
  · exact lookup_of_mem hnodup (List.mem_reverse.1 (mem_of_lookup h))
  · exact lookup_of_mem hreverse (List.mem_reverse.2 (mem_of_lookup h))

theorem lookup_zip {keys : List κ} (hkeys : keys.Nodup) {values : List α} {i : Nat} {key : κ}
    {value : α} (hkey : keys[i]? = some key) (hvalue : values[i]? = some value) :
    (keys.zip values).lookup key = some value := by
  induction keys generalizing values i with
  | nil => cases hkey
  | cons head keys ih =>
      cases values with
      | nil => cases hvalue
      | cons first values =>
          rw [List.zip_cons_cons]
          cases i with
          | zero =>
              obtain rfl := Option.some.inj hkey
              obtain rfl := Option.some.inj hvalue
              exact List.lookup_cons_self
          | succ i =>
              have hmem : key ∈ keys := List.mem_of_getElem? hkey
              have hne : key ≠ head := fun h => (List.nodup_cons.1 hkeys).1 (h ▸ hmem)
              rw [lookup_cons_of_ne hne]
              exact ih (List.nodup_cons.1 hkeys).2 hkey hvalue

end MyEngine.Support
