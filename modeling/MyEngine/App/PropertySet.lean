import MyEngine.App.PropertyRead

/-!
# App — PropertySet

A `PropertyContainer::set` that succeeds merges the value at the path.

* `Value.at`: what a value has at a path.
* `noReferences_set`: the tree behind it is as free of references as the tree and the value before.
* `set_merges`: what is at the path, what is read there, and what is read elsewhere.
-/

namespace MyEngine.App

open Serialization Support

/-! ### Values at a path -/

def Value.at : List Text → Value → Option Value
  | [], v                           => some v
  | name :: path, .object members => (members name).bind (Value.at path)
  | _ :: _, _                       => none

/-- The value has no reference in a string on any path. -/
def Value.NoReferences (v : Value) : Prop :=
  ∀ path str, Value.at path v = some (.string str) → regexSearch str = none

theorem at_denote (path : List Text) (j : Json) :
    Value.at path j.denote = (valueAt path j).map Json.denote := by
  induction path generalizing j with
  | nil => rfl
  | cons name path ih =>
      cases j with
      | object members =>
          rw [Json.denote_object, Value.at, denoteObject, valueAt]
          cases members.lookup name with
          | none => rfl
          | some j => exact ih j
      | array elements =>
          rw [Json.denote_array]
          rfl
      | null | int | uint | real | boolean | string => rfl

theorem Json.eq_string {j : Json} {str : Text} (h : j.denote = .string str) : j = .string str := by
  cases j with
  | string s => exact congrArg Json.string (Value.string.inj h)
  | array elements => rw [Json.denote_array] at h; cases h
  | object members => rw [Json.denote_object] at h; cases h
  | null | int | uint | real | boolean => cases h

theorem noReferences_iff (j : Json) : NoReferences j ↔ Value.NoReferences j.denote := by
  refine forall_congr' fun path => forall_congr' fun str => ?_
  rw [at_denote, Option.map_eq_some_iff]
  refine ⟨fun h ⟨found, hfound, hdenote⟩ => h (Json.eq_string hdenote ▸ hfound), fun h hfound => ?_⟩
  exact h ⟨_, hfound, rfl⟩

/-- A string in a merged value is one of either. -/
theorem at_merge {path : List Text} {v v' : Value} {str : Text}
    (h : Value.at path (v.merge v') = some (.string str)) :
    Value.at path v = some (.string str) ∨ Value.at path v' = some (.string str) := by
  induction path generalizing v v' with
  | nil =>
      refine .inr (congrArg some ?_)
      have hmerge : v.merge v' = .string str := Option.some.inj h
      cases v' with
      | array elements => cases v <;> cases hmerge
      | object members => cases v <;> cases hmerge
      | null | boolean | number | string => cases v <;> exact hmerge
  | cons name path ih =>
      cases v' with
      | object members' =>
          cases v with
          | object members =>
              rw [Value.merge, Value.at] at h
              rw [Value.at, Value.at]
              cases hold : members name with
              | none =>
                  rw [hold] at h
                  exact .inr h
              | some old =>
                  cases hnew : members' name with
                  | none =>
                      rw [hold, hnew] at h
                      exact .inl h
                  | some new =>
                      rw [hold, hnew] at h
                      exact ih h
          | null | boolean | number | string | array => exact .inr h
      | array elements =>
          cases v <;> cases h
      | null | boolean | number | string => cases v <;> cases h

theorem valueAt_append (path rest : List Text) (j : Json) :
    valueAt (path ++ rest) j = (valueAt path j).bind (valueAt rest) := by
  induction path generalizing j with
  | nil => rfl
  | cons name path ih =>
      cases j with
      | object members =>
          rw [List.cons_append, valueAt, valueAt]
          cases members.lookup name with
          | none => rfl
          | some j => exact ih j
      | null | int | uint | real | boolean | string | array => rfl

/-! ### The merge at the path -/

section

variable {path : List Text} {root root' : Members} {value : RuntimeValue} {stored : Json}

/-- What is stored at the path is the merge of what was there and the value. -/
theorem denote_stored (hvalue : value.Plain)
    (hstored : stored = setJsonValue ((valueAt path (.object root)).getD .null) value) :
    some stored.denote = Value.mergeMember (Value.at path (Json.object root).denote)
      (some value.denote) := by
  rw [hstored, setJsonValue_denote hvalue, at_denote]
  cases valueAt path (.object root) with
  | none => exact congrArg some (Value.null_merge _)
  | some old => rfl

theorem noReferences_set (hroot : NoReferences (.object root))
    (hfree : Value.NoReferences value.denote)
    (hstored : valueAt path (.object root') = some stored)
    (hdenote : some stored.denote = Value.mergeMember (Value.at path (Json.object root).denote)
      (some value.denote))
    (hother : ∀ other, ¬ other <+: path → ¬ path <+: other →
      valueAt other (.object root') = valueAt other (.object root)) :
    NoReferences (.object root') := by
  intro other str hstr
  by_cases hbehind : path <+: other
  · -- inside of what has been stored
    obtain ⟨rest, rfl⟩ := hbehind
    rw [valueAt_append, hstored, Option.bind_some] at hstr
    have hmerged : Value.at rest stored.denote = some (.string str) := by
      rw [at_denote, hstr]
      rfl
    rw [at_denote] at hdenote
    cases hold : valueAt path (.object root) with
    | none =>
        rw [hold] at hdenote
        rw [Option.some.inj hdenote] at hmerged
        exact hfree rest str hmerged
    | some old =>
        rw [hold] at hdenote
        rw [Option.some.inj hdenote] at hmerged
        rcases at_merge hmerged with h | h
        · refine (noReferences_iff _).1 hroot (path ++ rest) str ?_
          rw [at_denote, valueAt_append, hold, Option.bind_some, ← at_denote]
          exact h
        · exact hfree rest str h
  · by_cases hbefore : other <+: path
    · -- on the way there are dictionaries
      obtain ⟨rest, rfl⟩ := hbefore
      rw [valueAt_append, hstr, Option.bind_some] at hstored
      cases rest with
      | nil =>
          rw [List.append_nil] at hbehind
          exact absurd List.prefix_rfl hbehind
      | cons name rest => cases hstored
    · rw [hother other hbefore hbehind] at hstr
      exact hroot other str hstr

end

/-- Behind a `set` that succeeds the merge is stored at the path and read there, and every path that
is not on the way to it or through it reads as before. -/
theorem set_merges {variableResolvers : Text → Option (Text → Option Text)} {fuel : Nat}
    {root root' : Members} {path : Text} {value : RuntimeValue} (hvalue : value.Plain)
    (hroot : NoReferences (.object root)) (hfree : Value.NoReferences value.denote)
    (h : set (transformString variableResolvers root fuel) root path value =
      some (root', .ok ())) :
    Value.at (names path) (Json.object root').denote =
      Value.mergeMember (Value.at (names path) (Json.object root).denote) (some value.denote) ∧
    (∃ found, Reads variableResolvers root' path (some found) ∧
      some found.denote = Value.at (names path) (Json.object root').denote) ∧
    ∀ other, ¬ names other <+: names path → ¬ names path <+: names other →
      ∀ found, Reads variableResolvers root' other found ↔
        Reads variableResolvers root other found := by
  rw [set_eq] at h
  obtain ⟨⟨hkey, -⟩, hstored, hother⟩ :=
    getDictionaryAtPath_ok (fun name => ne_nil_of_mem_names) h
  have hpath : names path = names (splitPropertyPath path).1 ++ [(splitPropertyPath path).2] := by
    rw [names_eq, if_neg hkey]
  rw [← hpath] at hstored hother
  obtain ⟨stored, heq⟩ : ∃ stored,
      stored = setJsonValue ((valueAt (names path) (.object root)).getD .null) value := ⟨_, rfl⟩
  rw [← heq] at hstored
  have hdenote := denote_stored hvalue heq
  have hroot' := noReferences_set hroot hfree hstored hdenote hother
  have hat : Value.at (names path) (Json.object root').denote = some stored.denote := by
    rw [at_denote, hstored]
    rfl
  refine ⟨hat.trans hdenote, ⟨stored, (reads_iff hroot' path _).2 hstored.symm, hat.symm⟩,
    fun other hbefore hbehind found => ?_⟩
  rw [reads_iff hroot', reads_iff hroot, hother _ hbefore hbehind]

/-- The list at `/b` is appended to, and the path `c` reads as before. -/
theorem set_merges_list : ∃ root', set (transformString (fun _ => none)
      [(['b'], .array [.int 1])] 1) [(['b'], .array [.int 1])] ['/', 'b']
      (.collection [.integer (.int32 2)]) = some (root', .ok ()) ∧
    Value.at [['b']] (Json.object root').denote = some (.array [.ofInt 1, .ofInt 2]) ∧
    Reads (fun _ => none) root' ['c'] none := by
  have hvalue : (RuntimeValue.collection [.integer (.int32 2)]).Plain :=
    .collection (List.forall_mem_singleton.2 (.integer _))
  have hroot : NoReferences (.object [(['b'], .array [.int 1])]) := by
    intro path str h
    cases path with
    | nil => cases h
    | cons name path =>
        by_cases hname : name = ['b']
        · rw [hname, valueAt_cons path rfl] at h
          cases path <;> cases h
        · rw [valueAt_cons_of_none path ((lookup_cons_of_ne hname _ _).trans rfl)] at h
          cases h
  have hfree : Value.NoReferences (RuntimeValue.collection [.integer (.int32 2)]).denote := by
    intro path str h
    rw [RuntimeValue.denote_collection] at h
    cases path <;> cases h
  have hset : set (transformString (fun _ => none) [(['b'], .array [.int 1])] 1)
      [(['b'], .array [.int 1])] ['/', 'b'] (.collection [.integer (.int32 2)]) =
        some ([(['b'], .array [.int 1, .int 2])], .ok ()) := rfl
  obtain ⟨hat, -, hother⟩ := set_merges hvalue hroot hfree hset
  refine ⟨_, hset, hat.trans ?_, (hother ['c'] ?_ ?_ none).2 ⟨0, rfl⟩⟩
  · rw [RuntimeValue.denote_collection, at_denote]
    have hold : valueAt (names ['/', 'b']) (.object [(['b'], .array [.int 1])]) =
        some (.array [.int 1]) := rfl
    rw [hold, Option.map_some, Json.denote_array]
    rfl
  · decide
  · decide

end MyEngine.App
