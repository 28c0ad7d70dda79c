import MyEngine.App.PropertyExpand

/-!
# App — PropertyReferences

What the references in a string expand to.

* `Pass`: one pass over a string from the left to the right, replacing its references.
* `pass_of_expandMatches`: the loop over the matches makes that pass.
* `expands_iff`: when the answer is the string of the pass.
-/

namespace MyEngine.App

open Relation Serialization Support

/-! ### The pass -/

/-- There is a `$` with a word and a word in braces behind it. -/
def HasReference (str : Text) : Prop :=
  ∃ before varKind varValue after,
    str = before ++ ('$' :: (varKind ++ '{' :: (varValue ++ '}' :: after))) ∧
      (∀ c ∈ varKind, isWordChar c) ∧ ∀ c ∈ varValue, isWordChar c

/-- What a reference is replaced by: the string that the property is read as, or nothing; what the
resolver of its kind makes of it; or itself. -/
def Replaced (variableResolvers : Text → Option (Text → Option Text)) (root : Members) (m : Match)
    (replacement : Text) : Prop :=
  if m.varKind = [] then
    ∃ found, Reads variableResolvers root m.varValue found ∧
      replacement = match found with
        | some (.string strValue) => strValue
        | _                       => []
  else replacement = ((variableResolvers m.varKind).bind (· m.varValue)).getD m.text

/-- The references replaced and everything else kept. -/
inductive Pass (replaces : Match → Text → Prop) : Text → Text → Prop where
  | nil : Pass replaces [] []
  | char {c : Char} {str out : Text} (h : matchHere (c :: str) = none)
      (t : Pass replaces str out) : Pass replaces (c :: str) (c :: out)
  | reference {str replacement out : Text} {m : Match} (h : matchHere str = some m)
      (hr : replaces m replacement) (t : Pass replaces m.after out) :
      Pass replaces str (replacement ++ out)

/-- The call for `str` returns this. -/
def Expands (variableResolvers : Text → Option (Text → Option Text)) (root : Members)
    (str : Text) (answer : Option Text) : Prop :=
  ∃ fuel, transformString variableResolvers root fuel str = some answer

/-- What is asked of a call: nothing without a reference, and the string of the pass with one. -/
structure ExpandsReferences (variableResolvers : Text → Option (Text → Option Text))
    (root : Members) (str : Text) : Prop where
  without : ¬ HasReference str → Expands variableResolvers root str none
  with_references : HasReference str →
    ∃ out, Pass (Replaced variableResolvers root) str out ∧
      Expands variableResolvers root str (some out)

/-! ### The search -/

theorem matchHere_reference {varKind varValue : Text} (after : Text)
    (hkind : ∀ c ∈ varKind, isWordChar c) (hvalue : ∀ c ∈ varValue, isWordChar c) :
    matchHere ('$' :: (varKind ++ '{' :: (varValue ++ '}' :: after))) =
      some ⟨[], varKind, varValue, after⟩ := by
  have hopen : isWordChar '{' = false := by decide
  have hclose : isWordChar '}' = false := by decide
  have hcut : ∀ (rest : Text) {word : Text} {c : Char}, (∀ d ∈ word, isWordChar d) →
      isWordChar c = false → (word ++ c :: rest).takeWhile isWordChar = word ∧
        (word ++ c :: rest).dropWhile isWordChar = c :: rest := by
    intro rest word c hword hc
    rw [List.takeWhile_append_of_pos hword, List.dropWhile_append_of_pos hword,
      List.takeWhile_cons_of_neg (by simp [hc]), List.dropWhile_cons_of_neg (by simp [hc]),
      List.append_nil]
    exact ⟨rfl, rfl⟩
  obtain ⟨hkindTake, hkindDrop⟩ := hcut (varValue ++ '}' :: after) hkind hopen
  obtain ⟨hvalueTake, hvalueDrop⟩ := hcut after hvalue hclose
  simp only [matchHere, hkindDrop, hvalueDrop, hkindTake, hvalueTake]

/-- A match at the start has nothing before it, and words in it. -/
theorem words_of_matchHere {str : Text} {m : Match} (h : matchHere str = some m) :
    m.before = [] ∧ (∀ c ∈ m.varKind, isWordChar c) ∧ ∀ c ∈ m.varValue, isWordChar c := by
  have hword : ∀ word : Text, ∀ c ∈ word.takeWhile isWordChar, isWordChar c := by
    intro word
    exact List.all_eq_true.1 (List.all_takeWhile ..)
  unfold matchHere at h
  split at h
  · split at h
    · split at h
      · obtain rfl := Option.some.inj h
        exact ⟨rfl, hword _, hword _⟩
      · cases h
    · cases h
  · cases h

theorem regexSearch_append (before : Text) {str : Text} (h : (matchHere str).isSome) :
    (regexSearch (before ++ str)).isSome := by
  induction before with
  | nil =>
      cases str with
      | nil => cases h
      | cons c str =>
          obtain ⟨m, hm⟩ := Option.isSome_iff_exists.1 h
          rw [List.nil_append, regexSearch, hm]
          rfl
  | cons c before ih =>
      rw [List.cons_append, regexSearch]
      split
      · rfl
      · rwa [Option.isSome_map]

theorem hasReference_of_regexSearch {str : Text} {m : Match} (h : regexSearch str = some m) :
    HasReference str := by
  induction str generalizing m with
  | nil => cases h
  | cons c str ih =>
      rw [regexSearch] at h
      split at h
      · next m' hhere =>
        obtain ⟨hbefore, hkind, hvalue⟩ := words_of_matchHere hhere
        have hstr := matchHere_eq_some hhere
        rw [hbefore] at hstr
        exact ⟨[], m'.varKind, m'.varValue, m'.after, by simpa [Match.text] using hstr, hkind,
          hvalue⟩
      · obtain ⟨m', hsearch, rfl⟩ := Option.map_eq_some_iff.1 h
        obtain ⟨before, varKind, varValue, after, rfl, hkind, hvalue⟩ := ih hsearch
        exact ⟨c :: before, varKind, varValue, after, rfl, hkind, hvalue⟩

theorem regexSearch_eq_none_iff (str : Text) : regexSearch str = none ↔ ¬ HasReference str := by
  constructor
  · rintro h ⟨before, varKind, varValue, after, rfl, hkind, hvalue⟩
    have hsome := regexSearch_append before
      (Option.isSome_of_eq_some (matchHere_reference after hkind hvalue))
    rw [h] at hsome
    cases hsome
  · intro h
    rcases hsearch : regexSearch str with _ | m
    · rfl
    · exact absurd (hasReference_of_regexSearch hsearch) h

/-- What the search goes past is kept. -/
theorem pass_of_regexSearch {replaces : Match → Text → Prop} {str replacement out : Text}
    {m : Match} (h : regexSearch str = some m)
    (hr : ∀ before, replaces { m with before := before } replacement)
    (t : Pass replaces m.after out) :
    Pass replaces str (m.before ++ replacement ++ out) := by
  induction str generalizing m with
  | nil => cases h
  | cons c str ih =>
      rw [regexSearch] at h
      split at h
      · next m' hhere =>
        obtain rfl := Option.some.inj h
        rw [(words_of_matchHere hhere).1, List.nil_append]
        exact .reference hhere (hr m'.before) t
      · next hnone =>
        obtain ⟨m', hsearch, rfl⟩ := Option.map_eq_some_iff.1 h
        exact .char hnone (ih hsearch hr t)

theorem pass_plain {replaces : Match → Text → Prop} {str : Text} (h : regexSearch str = none) :
    Pass replaces str str := by
  induction str with
  | nil => exact .nil
  | cons c str ih =>
      rw [regexSearch] at h
      split at h
      · cases h
      · next hnone => exact .char hnone (ih (Option.map_eq_none_iff.1 h))

/-- There is one pass. -/
theorem Pass.unique {replaces : Match → Text → Prop} {str out out' : Text}
    (hr : ∀ m r r', replaces m r → replaces m r' → r = r') (h : Pass replaces str out)
    (h' : Pass replaces str out') : out = out' := by
  induction h generalizing out' with
  | nil =>
      cases h' with
      | nil => rfl
      | reference hm => cases hm
  | char hnone _ ih =>
      cases h' with
      | char _ t' => rw [ih t']
      | reference hm => rw [hnone] at hm; cases hm
  | reference hm hrep _ ih =>
      cases h' with
      | nil => cases hm
      | char hnone => rw [hnone] at hm; cases hm
      | reference hm' hrep' t' =>
          obtain rfl := Option.some.inj (hm.symm.trans hm')
          rw [hr _ _ _ hrep hrep', ih t']

/-! ### Answers are unique -/

section Mono
variable {variableResolvers : Text → Option (Text → Option Text)} {root : Members}
  {T T' : Text → Running (Option Text)}

/-- A walk that returns does so also where more expansions return. -/
theorem findValueAtPath_mono (h : ∀ str r, T str = some r → T' str = some r) {path : List Text}
    (hpath : ∀ name ∈ path, name ≠ []) {j : Json} {found : Option Json}
    (hfound : findValueAtPath T path j = some found) : findValueAtPath T' path j = some found := by
  cases hstring : stringAt path j with
  | none =>
      rw [findValueAtPath_of_none hpath hstring] at hfound ⊢
      exact hfound
  | some str =>
      rw [findValueAtPath_of_some hpath hstring] at hfound ⊢
      obtain ⟨newString, hnew, rfl⟩ := Option.map_eq_some_iff.1 hfound
      rw [h str newString hnew]
      rfl

theorem replacementStr_mono (h : ∀ str r, T str = some r → T' str = some r) {m : Match}
    {replacement : Text} (hr : replacementStr variableResolvers T root m = some replacement) :
    replacementStr variableResolvers T' root m = some replacement := by
  rw [replacementStr] at hr ⊢
  split at hr
  case isTrue hkind =>
    obtain ⟨found, hfound, hrep⟩ := Option.map_eq_some_iff.1 hr
    rw [if_pos hkind, findValueAtPath_mono h (fun name => ne_nil_of_mem_names) hfound]
    exact congrArg some hrep
  case isFalse hkind => rwa [if_neg hkind]

theorem expandMatches_mono (h : ∀ str r, T str = some r → T' str = some r)
    {matches' : List Match} {result : Text}
    (hr : expandMatches variableResolvers T root matches' = some result) :
    expandMatches variableResolvers T' root matches' = some result := by
  induction matches' generalizing result with
  | nil => exact hr
  | cons m matches' ih =>
      rw [expandMatches] at hr ⊢
      cases hrep : replacementStr variableResolvers T root m with
      | none => rw [hrep] at hr; cases hr
      | some replacement =>
          rw [hrep] at hr
          obtain ⟨rest, hrest, hresult⟩ := Option.map_eq_some_iff.1 hr
          rw [replacementStr_mono h hrep, ih hrest]
          exact congrArg some hresult

theorem transformString_succ {fuel : Nat} {str : Text} {r : Option Text}
    (h : transformString variableResolvers root fuel str = some r) :
    transformString variableResolvers root (fuel + 1) str = some r := by
  induction fuel generalizing str r with
  | zero => cases h
  | succ fuel ih =>
      rw [transformString, expandConfigString] at h ⊢
      obtain ⟨result, hresult, hr⟩ := Option.map_eq_some_iff.1 h
      rw [expandMatches_mono (fun str r => ih) hresult]
      exact congrArg some hr

theorem transformString_mono {fuel fuel' : Nat} (hle : fuel ≤ fuel') {str : Text}
    {r : Option Text} (h : transformString variableResolvers root fuel str = some r) :
    transformString variableResolvers root fuel' str = some r := by
  induction hle with
  | refl => exact h
  | step _ ih => exact transformString_succ ih

/-- Reads that return find the same. -/
theorem Reads.unique {path : Text} {found found' : Option Json}
    (h : Reads variableResolvers root path found) (h' : Reads variableResolvers root path found') :
    found = found' := by
  obtain ⟨fuel, hfuel⟩ := h
  obtain ⟨fuel', hfuel'⟩ := h'
  have hpath : ∀ name ∈ names path, name ≠ [] := fun name => ne_nil_of_mem_names
  have hmax := findValueAtPath_mono
    (fun str r => transformString_mono (Nat.le_max_left fuel fuel')) hpath hfuel
  have hmax' := findValueAtPath_mono
    (fun str r => transformString_mono (Nat.le_max_right fuel fuel')) hpath hfuel'
  exact Option.some.inj (hmax.symm.trans hmax')

theorem Replaced.unique {m : Match} {replacement replacement' : Text}
    (h : Replaced variableResolvers root m replacement)
    (h' : Replaced variableResolvers root m replacement') : replacement = replacement' := by
  rw [Replaced] at h h'
  split at h
  case isTrue hkind =>
    rw [if_pos hkind] at h'
    obtain ⟨found, hreads, rfl⟩ := h
    obtain ⟨found', hreads', rfl⟩ := h'
    rw [hreads.unique hreads']
  case isFalse hkind =>
    rw [if_neg hkind] at h'
    exact h.trans h'.symm

end Mono

/-! ### The loop makes the pass -/

section Loop
variable {variableResolvers : Text → Option (Text → Option Text)} {root : Members} {fuel : Nat}

theorem replaced_of_replacementStr {m : Match} {replacement : Text}
    (h : replacementStr variableResolvers (transformString variableResolvers root fuel) root m =
      some replacement) : Replaced variableResolvers root m replacement := by
  rw [replacementStr] at h
  rw [Replaced]
  split at h
  case isTrue hkind =>
    obtain ⟨found, hfound, rfl⟩ := Option.map_eq_some_iff.1 h
    rw [if_pos hkind]
    exact ⟨found, ⟨fuel, hfound⟩, rfl⟩
  case isFalse hkind =>
    rw [if_neg hkind]
    cases hresolver : variableResolvers m.varKind with
    | none =>
        rw [hresolver] at h
        exact (Option.some.inj h).symm
    | some resolver =>
        rw [hresolver] at h
        exact (Option.some.inj h).symm

/-- The match's place in the string does not matter to its replacement. -/
theorem Replaced.at_before {m : Match} {replacement : Text}
    (h : Replaced variableResolvers root m replacement) (before : Text) :
    Replaced variableResolvers root { m with before := before } replacement := h

theorem pass_of_expandMatches {n : Nat} {str result : Text} (hn : str.length ≤ n)
    (h : expandMatches variableResolvers (transformString variableResolvers root fuel) root
      (occurrences n str).1 = some result) :
    Pass (Replaced variableResolvers root) str (result ++ (occurrences n str).2) := by
  induction n generalizing str result with
  | zero =>
      obtain rfl : str = [] := List.length_eq_zero_iff.1 (Nat.le_zero.1 hn)
      obtain rfl : [] = result := Option.some.inj h
      exact .nil
  | succ n ih =>
      rw [occurrences] at h ⊢
      cases hsearch : regexSearch str with
      | none =>
          rw [hsearch] at h
          obtain rfl : [] = result := Option.some.inj h
          exact pass_plain hsearch
      | some m =>
          rw [hsearch] at h
          dsimp only at h ⊢
          -- the match itself is not empty, so the rest is shorter
          have hlength := congrArg List.length (regexSearch_eq_some hsearch)
          simp only [List.length_append, Match.text, List.length_cons] at hlength
          rw [expandMatches] at h
          cases hrep : replacementStr variableResolvers
              (transformString variableResolvers root fuel) root m with
          | none => rw [hrep] at h; cases h
          | some replacement =>
              rw [hrep] at h
              obtain ⟨rest, hrest, rfl⟩ := Option.map_eq_some_iff.1 h
              have htail := ih (by omega) hrest
              rw [List.append_assoc]
              exact pass_of_regexSearch hsearch (replaced_of_replacementStr hrep).at_before htail

/-- The loop's result is empty where all texts before the references and all replacements are. -/
theorem eq_nil_of_expandMatches {matches' : List Match} {result : Text}
    (h : expandMatches variableResolvers (transformString variableResolvers root fuel) root
      matches' = some result) :
    result = [] ↔ ∀ m ∈ matches', m.before = [] ∧ Replaced variableResolvers root m [] := by
  induction matches' generalizing result with
  | nil =>
      obtain rfl : [] = result := Option.some.inj h
      exact iff_of_true rfl (List.forall_mem_nil _)
  | cons m matches' ih =>
      rw [expandMatches] at h
      cases hrep : replacementStr variableResolvers
          (transformString variableResolvers root fuel) root m with
      | none => rw [hrep] at h; cases h
      | some replacement =>
          rw [hrep] at h
          obtain ⟨rest, hrest, rfl⟩ := Option.map_eq_some_iff.1 h
          have hreplaced := replaced_of_replacementStr hrep
          rw [List.forall_mem_cons, ← ih hrest, List.append_eq_nil_iff, List.append_eq_nil_iff]
          constructor
          · rintro ⟨⟨hbefore, rfl⟩, hnil⟩
            exact ⟨⟨hbefore, hreplaced⟩, hnil⟩
          · rintro ⟨⟨hbefore, hempty⟩, hnil⟩
            exact ⟨⟨hbefore, hreplaced.unique hempty⟩, hnil⟩

end Loop

/-! ### The answer -/

/-- What a call answers, from what its loop has put together. -/
theorem exists_expandMatches {variableResolvers : Text → Option (Text → Option Text)}
    {root : Members} {str : Text} {answer : Option Text}
    (h : Expands variableResolvers root str answer) :
    ∃ fuel result, expandMatches variableResolvers (transformString variableResolvers root fuel)
        root (occurrences str.length str).1 = some result ∧
      answer = if result = [] then none else some (result ++ (occurrences str.length str).2) := by
  obtain ⟨fuel, hfuel⟩ := h
  cases fuel with
  | zero => cases hfuel
  | succ fuel =>
      rw [transformString, expandConfigString] at hfuel
      obtain ⟨result, hresult, hanswer⟩ := Option.map_eq_some_iff.1 hfuel
      exact ⟨fuel, result, hresult, hanswer.symm⟩

theorem acyclic_of_expands {variableResolvers : Text → Option (Text → Option Text)}
    {root : Members} {str : Text} {answer : Option Text}
    (h : Expands variableResolvers root str answer) : Acyclic root str := by
  obtain ⟨fuel, hfuel⟩ := h
  exact (exists_transformString_iff variableResolvers root str).1
    ⟨fuel, Option.isSome_of_eq_some hfuel⟩

/-- The loop infers from what it has put together whether it has replaced anything: the answer is
missing where that is nothing although there are references. -/
theorem expandsReferences_iff (variableResolvers : Text → Option (Text → Option Text))
    (root : Members) (str : Text) :
    ExpandsReferences variableResolvers root str ↔
      Acyclic root str ∧ (HasReference str → ∃ m ∈ (occurrences str.length str).1,
        m.before ≠ [] ∨ ¬ Replaced variableResolvers root m []) := by
  constructor
  · intro h
    constructor
    · by_cases href : HasReference str
      · obtain ⟨out, -, hexpands⟩ := h.with_references href
        exact acyclic_of_expands hexpands
      · exact acyclic_of_expands (h.without href)
    · intro href
      obtain ⟨out, -, hexpands⟩ := h.with_references href
      obtain ⟨fuel, result, hresult, hout⟩ := exists_expandMatches hexpands
      have hne : result ≠ [] := fun hnil => by
        rw [if_pos hnil] at hout
        cases hout
      by_contra hnone
      refine hne ((eq_nil_of_expandMatches hresult).2 fun m hm => ?_)
      by_contra hm'
      exact hnone ⟨m, hm, not_and_or.1 hm'⟩
  · rintro ⟨hacyclic, hsome⟩
    constructor
    · intro href
      have hplain := (regexSearch_eq_none_iff str).2 href
      exact ⟨1, transformString_plain hplain 0⟩
    · intro href
      obtain ⟨fuel, hfuel⟩ := (exists_transformString_iff variableResolvers root str).2 hacyclic
      obtain ⟨answer, hanswer⟩ := Option.isSome_iff_exists.1 hfuel
      have hexpands : Expands variableResolvers root str answer := ⟨fuel, hanswer⟩
      obtain ⟨fuel', result, hresult, hout⟩ := exists_expandMatches hexpands
      obtain ⟨m, hm, hm'⟩ := hsome href
      have hne : result ≠ [] := fun hnil => by
        obtain ⟨hbefore, hempty⟩ := (eq_nil_of_expandMatches hresult).1 hnil m hm
        exact hm'.elim (fun hno => hno hbefore) fun hno => hno hempty
      rw [if_neg hne] at hout
      exact ⟨_, pass_of_expandMatches (Nat.le_refl _) hresult, hout ▸ hexpands⟩

/-- The property is missing, and the text behind the reference is lost. -/
theorem not_expandsReferences_missing :
    ¬ ExpandsReferences (fun _ => none) [] ['$', '{', 'a', '}', 'b'] := by
  intro h
  have href : HasReference ['$', '{', 'a', '}', 'b'] :=
    ⟨[], [], ['a'], ['b'], rfl, List.forall_mem_nil _, List.forall_mem_singleton.2 rfl⟩
  obtain ⟨out, -, fuel, hfuel⟩ := h.with_references href
  cases fuel with
  | zero => cases hfuel
  | succ fuel =>
      have hnone : transformString (fun _ => none) [] (fuel + 1) ['$', '{', 'a', '}', 'b'] =
          some none := rfl
      rw [hnone] at hfuel
      cases hfuel

end MyEngine.App
