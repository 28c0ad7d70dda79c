import Mathlib.Data.Set.Finite.Lattice
import MyEngine.App.PropertyRead
import MyEngine.Support.Chains

/-!
# App — PropertyExpand

When the expansion of a string comes to an end.

* `occurrences_rest`: the loop over the matches of a string always does.
* `Refers`: expanding a string reads another one.
* `isSome_transformString_iff`: how deep the calls are nested is how far the references lead.
* `reads_terminate_iff`: expansions and reads that return are those whose references lead into no
  cycle.
-/

namespace MyEngine.App

open Relation Serialization Support

/-! ### The loop over the matches -/

/-- A match is a part of the string. -/
theorem matchHere_eq_some {str : Text} {m : Match} (h : matchHere str = some m) :
    str = m.before ++ m.text ++ m.after := by
  unfold matchHere at h
  split at h
  · next str =>
    split at h
    · next str' hkind =>
      split at h
      · next after hvalue =>
        obtain rfl := Option.some.inj h
        have hkind' : str.takeWhile isWordChar ++ '{' :: str' = str := by
          rw [← hkind, List.takeWhile_append_dropWhile]
        have hvalue' : str'.takeWhile isWordChar ++ '}' :: after = str' := by
          rw [← hvalue, List.takeWhile_append_dropWhile]
        calc '$' :: str
          _ = '$' :: (str.takeWhile isWordChar ++ '{' :: str') := congrArg _ hkind'.symm
          _ = '$' :: (str.takeWhile isWordChar ++
                '{' :: (str'.takeWhile isWordChar ++ '}' :: after)) := by rw [hvalue']
          _ = _ := by simp [Match.text]
      · cases h
    · cases h
  · cases h

theorem regexSearch_eq_some {str : Text} {m : Match} (h : regexSearch str = some m) :
    str = m.before ++ m.text ++ m.after := by
  induction str generalizing m with
  | nil => cases h
  | cons c str ih =>
      rw [regexSearch] at h
      split at h
      · next m' hhere =>
        obtain rfl := Option.some.inj h
        exact matchHere_eq_some hhere
      · obtain ⟨m', hsearch, rfl⟩ := Option.map_eq_some_iff.1 h
        exact congrArg (c :: ·) (ih hsearch)

/-- The loop over the matches ends where there is no other. -/
theorem occurrences_rest {n : Nat} {str : Text} (h : str.length ≤ n) :
    regexSearch (occurrences n str).2 = none := by
  induction n generalizing str with
  | zero => rw [occurrences, List.length_eq_zero_iff.1 (Nat.le_zero.1 h)]; rfl
  | succ n ih =>
      rw [occurrences]
      cases hsearch : regexSearch str with
      | none => exact hsearch
      | some m =>
          have hlength := congrArg List.length (regexSearch_eq_some hsearch)
          -- the match itself is not empty
          simp only [List.length_append, Match.text, List.length_cons] at hlength
          exact ih (by omega)

/-! ### What an expansion waits for -/

section Returns

variable {variableResolvers : Text → Option (Text → Option Text)}
  {transformString : Text → Running (Option Text)} {root : Members}

/-- A walk returns when the expansion of the string it comes to does. -/
theorem isSome_findValueAtPath {path : List Text} {j : Json} (hpath : ∀ name ∈ path, name ≠ []) :
    (findValueAtPath transformString path j).isSome ↔
      ∀ str, stringAt path j = some str → (transformString str).isSome := by
  cases hstring : stringAt path j with
  | none => simp [findValueAtPath_of_none hpath hstring]
  | some str => simp [findValueAtPath_of_some hpath hstring]

theorem isSome_replacementStr {m : Match} :
    (replacementStr variableResolvers transformString root m).isSome ↔
      (m.varKind = [] → ∀ str, stringAt (names m.varValue) (.object root) = some str →
        (transformString str).isSome) := by
  rw [replacementStr]
  split
  · next hkind =>
    rw [Option.isSome_map, isSome_findValueAtPath fun name => ne_nil_of_mem_names]
    exact ⟨fun h _ => h, fun h => h hkind⟩
  · next hkind =>
    refine iff_of_true ?_ fun h => absurd h hkind
    cases variableResolvers m.varKind <;> rfl

theorem isSome_expandMatches {matches' : List Match} :
    (expandMatches variableResolvers transformString root matches').isSome ↔
      ∀ m ∈ matches', (replacementStr variableResolvers transformString root m).isSome := by
  induction matches' with
  | nil => exact iff_of_true rfl (List.forall_mem_nil _)
  | cons m matches' ih =>
      rw [List.forall_mem_cons, ← ih, expandMatches]
      cases replacementStr variableResolvers transformString root m with
      | none => simp
      | some replacement => simp

end Returns

/-! ### References -/

/-- A reference in the string comes to this other string of the tree. -/
def Refers (root : Members) (str str' : Text) : Prop :=
  ∃ m ∈ (occurrences str.length str).1, m.varKind = [] ∧
    stringAt (names m.varValue) (.object root) = some str'

theorem isSome_transformString_succ (variableResolvers : Text → Option (Text → Option Text))
    (root : Members) (fuel : Nat) (str : Text) :
    (transformString variableResolvers root (fuel + 1) str).isSome ↔
      ∀ str', Refers root str str' → (transformString variableResolvers root fuel str').isSome := by
  rw [transformString, expandConfigString, Option.isSome_map, isSome_expandMatches]
  constructor
  · rintro h str' ⟨m, hm, hkind, hstr'⟩
    exact isSome_replacementStr.1 (h m hm) hkind str' hstr'
  · intro h m hm
    exact isSome_replacementStr.2 fun hkind str' hstr' => h str' ⟨m, hm, hkind, hstr'⟩

/-- How deep the calls are nested is how far the references lead. -/
theorem isSome_transformString_iff (variableResolvers : Text → Option (Text → Option Text))
    (root : Members) (fuel : Nat) (str : Text) :
    (transformString variableResolvers root fuel str).isSome ↔ Within (Refers root) fuel str := by
  induction fuel generalizing str with
  | zero => exact iff_of_false nofun id
  | succ fuel ih =>
      rw [isSome_transformString_succ]
      exact forall₂_congr fun str' _ => ih str'

/-- There are finitely many strings in a tree. -/
theorem finite_strings (j : Json) : {str | ∃ path, valueAt path j = some (.string str)}.Finite := by
  induction j using Json.induct with
  | string s =>
      refine (Set.finite_singleton s).subset ?_
      rintro str ⟨path, h⟩
      cases path with
      | nil => cases h; rfl
      | cons name path => cases h
  | object members ih =>
      refine ((List.finite_toSet members).biUnion ih).subset ?_
      rintro str ⟨path, h⟩
      cases path with
      | nil => cases h
      | cons name path =>
          obtain ⟨j, hlookup, hj⟩ := Option.bind_eq_some_iff.1 h
          exact Set.mem_biUnion (mem_of_lookup hlookup) ⟨path, hj⟩
  | null | int | uint | real | boolean | array =>
      refine Set.finite_empty.subset ?_
      rintro str ⟨path, h⟩
      cases path <;> cases h

theorem finite_referred (root : Members) : {str' | ∃ str, Refers root str str'}.Finite := by
  refine (finite_strings (.object root)).subset ?_
  rintro str' ⟨str, m, -, -, hstr'⟩
  exact exists_valueAt_of_stringAt hstr'

/-- No chain of references from the string comes to one that refers to itself. -/
def Acyclic (root : Members) (str : Text) : Prop :=
  ∀ str', ReflTransGen (Refers root) str str' → ¬ TransGen (Refers root) str' str'

theorem exists_transformString_iff (variableResolvers : Text → Option (Text → Option Text))
    (root : Members) (str : Text) :
    (∃ fuel, (transformString variableResolvers root fuel str).isSome) ↔ Acyclic root str := by
  rw [Acyclic, ← exists_within_iff (finite_referred root)]
  exact exists_congr fun fuel => isSome_transformString_iff variableResolvers root fuel str

theorem exists_reads_iff (variableResolvers : Text → Option (Text → Option Text)) (root : Members)
    (path : Text) : (∃ found, Reads variableResolvers root path found) ↔
      ∀ str, stringAt (names path) (.object root) = some str → Acyclic root str := by
  have hpath : ∀ name ∈ names path, name ≠ [] := fun name => ne_nil_of_mem_names
  cases hstring : stringAt (names path) (.object root) with
  | none => exact iff_of_true ⟨_, 0, findValueAtPath_of_none hpath hstring⟩ nofun
  | some str =>
      have hreturns : (∃ found, Reads variableResolvers root path found) ↔
          ∃ fuel, (transformString variableResolvers root fuel str).isSome := by
        refine exists_comm.trans (exists_congr fun fuel => ?_)
        rw [← Option.isSome_iff_exists, getRead, isSome_findValueAtPath hpath]
        simp [hstring]
      rw [hreturns, exists_transformString_iff]
      simp

/-- The expansion of a string and the read at a path return just when the references of that string,
or of the one on the path, lead into no cycle. -/
theorem reads_terminate_iff (variableResolvers : Text → Option (Text → Option Text))
    (root : Members) :
    (∀ str, (∃ fuel newString, transformString variableResolvers root fuel str = some newString) ↔
      Acyclic root str) ∧
    ∀ path, (∃ found, Reads variableResolvers root path found) ↔
      ∀ str, stringAt (names path) (.object root) = some str → Acyclic root str := by
  refine ⟨fun str => ?_, exists_reads_iff variableResolvers root⟩
  rw [← exists_transformString_iff variableResolvers]
  exact exists_congr fun fuel => Option.isSome_iff_exists.symm

/-- The string of `a` is a reference to `a`: it is there, and no read of it returns. -/
theorem self_reference_never_read :
    valueAt (names ['a']) (.object [(['a'], .string ['$', '{', 'a', '}'])]) =
      some (.string ['$', '{', 'a', '}']) ∧
    ∀ found, ¬ Reads (fun _ => none) [(['a'], .string ['$', '{', 'a', '}'])] ['a'] found := by
  have hself : Refers [(['a'], .string ['$', '{', 'a', '}'])] ['$', '{', 'a', '}']
      ['$', '{', 'a', '}'] := ⟨⟨[], [], ['a'], []⟩, List.mem_singleton_self _, rfl, rfl⟩
  refine ⟨rfl, fun found hfound => ?_⟩
  -- the string refers to itself, and the read comes to it at once
  exact (exists_reads_iff ..).1 ⟨found, hfound⟩ _ rfl _ .refl (.single hself)

end MyEngine.App
