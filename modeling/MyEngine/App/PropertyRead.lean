import MyEngine.App.PropertyWalk

/-!
# App — PropertyRead

What `PropertyContainer::getRead` finds.

* `stringAt`: the string that a walk comes to, on its way or at its end; reading it expands it.
* `findValueAtPath_of_none`, `findValueAtPath_of_some`: a walk is what is at the path, and the
  expansion of that string.
* `Reads`, `reads_iff`: without references a read finds the node at the path.
-/

namespace MyEngine.App

open Serialization Support

/-- The first string on the path. -/
@[grind =] def stringAt : List Text → Json → Option Text
  | [], _ => none
  | name :: path, .object members =>
      match members.lookup name with
      | none              => none
      | some (.string str) => some str
      | some j            => stringAt path j
  | _ :: _, _ => none

section Walk

variable {transformString : Text → Running (Option Text)} {path : List Text} {j : Json} {str : Text}

theorem findValueAtPath_cons {name : Text} {members : Members} (hname : name ≠ []) :
    findValueAtPath transformString (name :: path) (.object members) =
      match members.lookup name with
      | none   => some none
      | some j => (shown transformString j).bind (findValueAtPath transformString path) := by
  rw [findValueAtPath, getValue, if_neg hname]
  cases members.lookup name with
  | none => rfl
  | some j =>
      dsimp only
      cases shown transformString j <;> rfl

theorem findValueAtPath_of_none (hpath : ∀ name ∈ path, name ≠ []) (h : stringAt path j = none) :
    findValueAtPath transformString path j = some (valueAt path j) := by
  induction path generalizing j with
  | nil => rfl
  | cons name path ih =>
      obtain ⟨hname, hpath⟩ := List.forall_mem_cons.1 hpath
      cases j with
      | object members =>
          rw [findValueAtPath_cons hname, valueAt]
          rw [stringAt] at h
          cases hlookup : members.lookup name with
          | none => rfl
          | some j =>
              rw [hlookup] at h
              dsimp only
              rw [Option.bind_some, ← ih hpath (j := j)]
              · cases j with
                | string str => cases h
                | _ => rfl
              · cases j with
                | string str => cases h
                | _ => exact h
      | null | int | uint | real | boolean | string | array => rfl

/-- A string in the middle of a path ends the walk, once it has been expanded. -/
theorem findValueAtPath_of_some (hpath : ∀ name ∈ path, name ≠ [])
    (h : stringAt path j = some str) :
    findValueAtPath transformString path j = (transformString str).map fun newString =>
      (valueAt path j).map fun _ => .string (newString.getD str) := by
  induction path generalizing j with
  | nil => cases h
  | cons name path ih =>
      obtain ⟨hname, hpath⟩ := List.forall_mem_cons.1 hpath
      cases j with
      | object members =>
          rw [findValueAtPath_cons hname, valueAt]
          rw [stringAt] at h
          cases hlookup : members.lookup name with
          | none => rw [hlookup] at h; cases h
          | some j =>
              rw [hlookup] at h
              dsimp only
              rw [Option.bind_some]
              cases j with
              | string str' =>
                  obtain rfl := Option.some.inj h
                  rw [shown]
                  cases transformString str' with
                  | none => rfl
                  | some newString => cases path <;> rfl
              | null | int | uint | real | boolean | array | object => exact ih hpath h
      | null | int | uint | real | boolean | string | array => cases h

/-- The string is a node of the tree. -/
theorem exists_valueAt_of_stringAt (h : stringAt path j = some str) :
    ∃ before, valueAt before j = some (.string str) := by
  induction path generalizing j with
  | nil => cases h
  | cons name path ih =>
      cases j with
      | object members =>
          rw [stringAt] at h
          cases hlookup : members.lookup name with
          | none => rw [hlookup] at h; cases h
          | some j =>
              rw [hlookup] at h
              cases j with
              | string str' =>
                  obtain rfl := Option.some.inj h
                  exact ⟨[name], (valueAt_cons [] hlookup).trans rfl⟩
              | null | int | uint | real | boolean | array | object =>
                  obtain ⟨before, hbefore⟩ := ih h
                  exact ⟨name :: before, (valueAt_cons before hlookup).trans hbefore⟩
      | null | int | uint | real | boolean | string | array => cases h

/-- What is at the path is that string or nothing. -/
theorem valueAt_of_stringAt (h : stringAt path j = some str) {found : Json}
    (hfound : valueAt path j = some found) : found = .string str := by
  induction path generalizing j with
  | nil => cases h
  | cons name path ih =>
      cases j with
      | object members =>
          rw [stringAt] at h
          cases hlookup : members.lookup name with
          | none => rw [hlookup] at h; cases h
          | some j =>
              rw [hlookup] at h
              rw [valueAt_cons path hlookup] at hfound
              cases j with
              | string str' =>
                  obtain rfl := Option.some.inj h
                  cases path with
                  | nil => exact (Option.some.inj hfound).symm
                  | cons => cases hfound
              | null | int | uint | real | boolean | array | object => exact ih h hfound
      | null | int | uint | real | boolean | string | array => cases h

end Walk

/-! ### Strings without references -/

section Plain

variable {variableResolvers : Text → Option (Text → Option Text)} {root : Members}

theorem transformString_plain {str : Text} (h : regexSearch str = none) (fuel : Nat) :
    transformString variableResolvers root (fuel + 1) str = some none := by
  have hnone : occurrences str.length str = ([], str) := by
    cases str.length with
    | zero => rfl
    | succ n => rw [occurrences, h]
  rw [transformString, expandConfigString, hnone]
  rfl

/-- No string on any path has a reference. -/
def NoReferences (j : Json) : Prop :=
  ∀ path str, valueAt path j = some (.string str) → regexSearch str = none

/-- A read that returns finds this. -/
def Reads (variableResolvers : Text → Option (Text → Option Text)) (root : Members) (path : Text)
    (found : Option Json) : Prop :=
  ∃ fuel, getRead variableResolvers root fuel path = some found

theorem reads_iff (h : NoReferences (.object root)) (path : Text) (found : Option Json) :
    Reads variableResolvers root path found ↔ found = valueAt (names path) (.object root) := by
  have hpath : ∀ name ∈ names path, name ≠ [] := fun name => ne_nil_of_mem_names
  cases hstring : stringAt (names path) (.object root) with
  | none =>
      have hfind : ∀ fuel, getRead variableResolvers root fuel path =
          some (valueAt (names path) (.object root)) :=
        fun fuel => findValueAtPath_of_none hpath hstring
      exact ⟨fun ⟨fuel, hfuel⟩ => Option.some.inj (hfuel.symm.trans (hfind fuel)),
        fun heq => ⟨0, heq ▸ hfind 0⟩⟩
  | some str =>
      obtain ⟨before, hbefore⟩ := exists_valueAt_of_stringAt hstring
      have hplain := h before str hbefore
      have hfind : ∀ fuel, getRead variableResolvers root (fuel + 1) path =
          some (valueAt (names path) (.object root)) := by
        intro fuel
        rw [getRead, findValueAtPath_of_some hpath hstring, transformString_plain hplain]
        cases hfound : valueAt (names path) (.object root) with
        | none => rfl
        | some found =>
            rw [valueAt_of_stringAt hstring hfound]
            rfl
      constructor
      · rintro ⟨fuel, hfuel⟩
        cases fuel with
        | zero =>
            -- without fuel the expansion has not returned
            rw [getRead, findValueAtPath_of_some hpath hstring] at hfuel
            cases hfuel
        | succ fuel => exact Option.some.inj (hfuel.symm.trans (hfind fuel))
      · rintro rfl
        exact ⟨1, hfind 0⟩

end Plain

end MyEngine.App
