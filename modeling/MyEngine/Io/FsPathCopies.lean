import Mathlib.Data.List.DropRight
import MyEngine.Io.FsPath

/-!
# Io — FsPathCopies

`fs_path.cpp`: the constructors that copy and move a path make its string preferred once more.
Of the five passes of `makePreferredPathString` only the last one leaves work for an earlier one:
the trailing slash it takes off may have hidden a space.

* `exists_makePreferredPathString_iff`: the strings of a path are the preferred ones, save that
  they may end in a space.
* `makePreferredPathString_idem_iff`: the second application changes the string exactly when a
  space stands before the trailing slashes.
* `copies_iff`: a path made by construction, `append` or `concat` is equal to its copies exactly
  when no space stood there in the string the operation put together.
-/

namespace MyEngine.Io

/-! ### The ends of what each pass leaves -/

theorem head?_dropWhile_space (s : List Char) : (s.dropWhile (· = ' ')).head? ≠ some ' ' :=
  head?_of_dropWhile_space (List.dropWhile_idempotent _ s)

/-- The spaces taken off the end leave the head, if they leave anything. -/
theorem head?_trimSpaces (s : List Char) : (trimSpaces s).head? ≠ some ' ' := by
  obtain ⟨u, hu⟩ := List.rdropWhile_prefix (· = ' ') (s.dropWhile (· = ' '))
  change trimSpaces s ++ u = _ at hu
  intro hh
  have hne : trimSpaces s ≠ [] := by
    rintro hnil
    rw [hnil] at hh
    cases hh
  apply head?_dropWhile_space s
  rw [← hu, List.head?_append_of_ne_nil _ hne, hh]

theorem removeDoubleSlashes_eq_nil {s : List Char} : removeDoubleSlashes s = [] ↔ s = [] := by
  rw [← List.head?_eq_none_iff, head?_removeDoubleSlashes, List.head?_eq_none_iff]

theorem getLast?_removeDoubleSlashes (s : List Char) :
    (removeDoubleSlashes s).getLast? = s.getLast? := by
  induction s with
  | nil => rfl
  | cons c s ih =>
      rw [removeDoubleSlashes]
      split
      · next h =>
          have hne : s ≠ [] := by
            rintro rfl
            cases h.2
          rw [ih, List.getLast?_cons_of_ne_nil hne]
      · by_cases hs : s = []
        · subst hs; rfl
        · rw [List.getLast?_cons_of_ne_nil hs,
            List.getLast?_cons_of_ne_nil (mt removeDoubleSlashes_eq_nil.mp hs), ih]

/-- Where no slash ends the first part, no pair of slashes lies across. -/
theorem removeDoubleSlashes_append {u v : List Char} (h : u.getLast? ≠ some '/') :
    removeDoubleSlashes (u ++ v) = removeDoubleSlashes u ++ removeDoubleSlashes v := by
  induction u with
  | nil => rfl
  | cons c u ih =>
      by_cases hu : u = []
      · subst hu
        have hc : c ≠ '/' := by simpa using h
        simp [removeDoubleSlashes, hc]
      · rw [List.getLast?_cons_of_ne_nil hu] at h
        rw [List.cons_append, removeDoubleSlashes, removeDoubleSlashes, ih h,
          List.head?_append_of_ne_nil _ hu]
        split <;> rfl

theorem removeDoubleSlashes_replicate (n : Nat) :
    removeDoubleSlashes (List.replicate (n + 1) '/') = ['/'] := by
  induction n with
  | zero => rfl
  | succ n ih => rw [List.replicate_succ, removeDoubleSlashes, if_pos ⟨rfl, rfl⟩, ih]

/-! ### What the last pass uncovers -/

/-- What `std::replace` makes of a character. -/
def toSlash (c : Char) : Char := if c = '\\' then '/' else c

/-- A character that is a slash once the backslashes are replaced. -/
def isSlash (c : Char) : Bool := toSlash c = '/'

/-- The string without the spaces around it and without its trailing slashes. -/
def bare (s : List Char) : List Char := (trimSpaces s).rdropWhile isSlash

/-- In the string without the spaces around it, a space stands before the trailing slashes. -/
def SpaceBeforeSlash (s : List Char) : Prop := (bare s).getLast? = some ' '

instance (s : List Char) : Decidable (SpaceBeforeSlash s) :=
  inferInstanceAs (Decidable (_ = _))

theorem makePreferredPathString_passes (s : List Char) : makePreferredPathString s =
    removeTrailingSlash (removeDoubleSlashes ((trimSpaces s).map toSlash)) := rfl

/-- The string in its two parts, as the passes after the trimming see them. -/
theorem exists_trailing (s : List Char) :
    ∃ n, (trimSpaces s).map toSlash = (bare s).map toSlash ++ List.replicate n '/' := by
  have h : bare s ++ (trimSpaces s).rtakeWhile isSlash = trimSpaces s :=
    List.rdropWhile_append_rtakeWhile
  refine ⟨((trimSpaces s).rtakeWhile isSlash).length, ?_⟩
  have hs : ((trimSpaces s).rtakeWhile isSlash).map toSlash =
      List.replicate ((trimSpaces s).rtakeWhile isSlash).length '/' := by
    refine List.eq_replicate_iff.mpr ⟨List.length_map _, fun c hc => ?_⟩
    obtain ⟨d, hd, rfl⟩ := List.mem_map.mp hc
    have hd' : isSlash d = true := List.mem_rtakeWhile_imp hd
    exact of_decide_eq_true hd'
  rw [← hs, ← List.map_append, h]

theorem getLast?_bare (s : List Char) : ((bare s).map toSlash).getLast? ≠ some '/' := by
  intro hl
  rw [List.getLast?_map, Option.map_eq_some_iff] at hl
  obtain ⟨c, hc, he⟩ := hl
  have hne : bare s ≠ [] := by
    rintro hnil
    rw [hnil] at hc
    cases hc
  rw [List.getLast?_eq_some_getLast hne, Option.some.injEq] at hc
  have hlast := List.rdropWhile_last_not isSlash (trimSpaces s) hne
  change ¬ isSlash ((bare s).getLast hne) = true at hlast
  rw [hc] at hlast
  exact hlast (decide_eq_true he)

theorem removeTrailingSlash_concat {u : List Char} (h : u ≠ []) :
    removeTrailingSlash (u ++ ['/']) = u := by
  have := List.length_pos_iff.mpr h
  rw [removeTrailingSlash, if_pos ⟨by simpa, by simp⟩, List.dropLast_concat]

/-- All passes at once: the trailing slashes go, unless there is nothing else. -/
theorem makePreferredPathString_bare {s : List Char} (h : bare s ≠ []) :
    makePreferredPathString s = removeDoubleSlashes ((bare s).map toSlash) := by
  obtain ⟨n, hn⟩ := exists_trailing s
  have hlast : (removeDoubleSlashes ((bare s).map toSlash)).getLast? ≠ some '/' := by
    rw [getLast?_removeDoubleSlashes]
    exact getLast?_bare s
  have hne : removeDoubleSlashes ((bare s).map toSlash) ≠ [] := by
    rwa [ne_eq, removeDoubleSlashes_eq_nil, List.map_eq_nil_iff]
  rw [makePreferredPathString_passes, hn, removeDoubleSlashes_append (getLast?_bare s)]
  cases n with
  | zero =>
      rw [List.replicate_zero, removeDoubleSlashes, List.append_nil, removeTrailingSlash,
        if_neg fun h => hlast h.2]
  | succ n => rw [removeDoubleSlashes_replicate, removeTrailingSlash_concat hne]

theorem makePreferredPathString_bare_nil {s : List Char} (h : bare s = []) :
    makePreferredPathString s = [] ∨ makePreferredPathString s = ['/'] := by
  obtain ⟨n, hn⟩ := exists_trailing s
  rw [makePreferredPathString_passes, hn, h, List.map_nil, List.nil_append]
  cases n with
  | zero => exact .inl rfl
  | succ n =>
      rw [removeDoubleSlashes_replicate]
      exact .inr rfl

/-- The space at the end of what `makePreferredPathString` returns. -/
theorem getLast?_makePreferredPathString (s : List Char) :
    (makePreferredPathString s).getLast? = some ' ' ↔ SpaceBeforeSlash s := by
  rw [SpaceBeforeSlash]
  by_cases h : bare s = []
  · rw [h]
    rcases makePreferredPathString_bare_nil h with he | he
    all_goals simp [he]
  · rw [makePreferredPathString_bare h, getLast?_removeDoubleSlashes, List.getLast?_map,
      Option.map_eq_some_iff]
    constructor
    · rintro ⟨c, hc, he⟩
      rw [toSlash] at he
      split at he
      · exact absurd he (by decide)
      · rwa [he] at hc
    · exact fun hc => ⟨' ', hc, rfl⟩

/-- The string of a path: a preferred one, save that it may end in a space. -/
structure Settled (s : List Char) : Prop where
  head_ne : s.head? ≠ some ' '
  backslash : '\\' ∉ s
  chain : s.IsChain fun a b => ¬ (a = '/' ∧ b = '/')
  slash : s.getLast? = some '/' → s = ['/']

theorem preferred_iff_settled {s : List Char} :
    Preferred s ↔ Settled s ∧ s.getLast? ≠ some ' ' :=
  ⟨fun h => ⟨⟨h.head_ne, h.backslash, h.chain, h.slash⟩, h.last_ne⟩,
    fun ⟨h, hl⟩ => ⟨h.head_ne, hl, h.backslash, h.chain, h.slash⟩⟩

theorem toSlash_eq_space {c : Char} (h : toSlash c = ' ') : c = ' ' := by
  rw [toSlash] at h
  split at h
  · exact absurd h (by decide)
  · exact h

theorem settled_makePreferredPathString (s : List Char) :
    Settled (makePreferredPathString s) := by
  by_cases h : bare s = []
  · rcases makePreferredPathString_bare_nil h with he | he
    all_goals
      rw [he]
      exact ⟨by simp, by simp, by simp, by simp⟩
  rw [makePreferredPathString_bare h]
  obtain ⟨u, hu⟩ := List.rdropWhile_prefix isSlash (trimSpaces s)
  change bare s ++ u = _ at hu
  refine ⟨fun hh => ?_, fun hb => ?_, isChain_removeDoubleSlashes _, fun hl => ?_⟩
  · rw [head?_removeDoubleSlashes, List.head?_map, Option.map_eq_some_iff] at hh
    obtain ⟨c, hc, he⟩ := hh
    apply head?_trimSpaces s
    rw [← hu, List.head?_append_of_ne_nil _ h, hc, toSlash_eq_space he]
  · obtain ⟨c, -, hc⟩ := List.mem_map.mp (mem_removeDoubleSlashes hb)
    rw [toSlash] at hc
    split at hc
    · exact absurd hc (by decide)
    · next hne => exact hne hc
  · rw [getLast?_removeDoubleSlashes] at hl
    exact absurd hl (getLast?_bare s)

/-- A string that ends in a space is what is left when a slash is taken off behind it. -/
theorem Settled.exists_eq {s : List Char} (h : Settled s) :
    ∃ str, makePreferredPathString str = s := by
  by_cases hl : s.getLast? = some ' '
  · have hne : s ≠ [] := by
      rintro rfl
      cases hl
    have hlast : s.getLast? ≠ some '/' := by
      rw [hl]
      decide
    have htrim : trimSpaces (s ++ ['/']) = s ++ ['/'] := by
      have hh : (s ++ ['/']).head? ≠ some ' ' := by
        rw [List.head?_append_of_ne_nil _ hne]
        exact h.head_ne
      rw [trimSpaces, dropWhile_space hh, dropWhile_space (by simp), List.reverse_reverse]
    have hmap : (s ++ ['/']).map toSlash = s ++ ['/'] := by
      refine (List.map_congr_left fun c hc => if_neg ?_).trans (List.map_id _)
      rintro rfl
      rcases List.mem_append.mp hc with hc | hc
      · exact h.backslash hc
      · simp at hc
    refine ⟨s ++ ['/'], ?_⟩
    rw [makePreferredPathString_passes, htrim, hmap, removeDoubleSlashes_append hlast,
      removeDoubleSlashes_eq h.chain, removeDoubleSlashes_eq (.singleton _),
      removeTrailingSlash_concat hne]
  · exact ⟨s, makePreferredPathString_eq (preferred_iff_settled.mpr ⟨h, hl⟩)⟩

/-- The strings of the paths. -/
theorem exists_makePreferredPathString_iff {s : List Char} :
    (∃ str, makePreferredPathString str = s) ↔ Settled s :=
  ⟨fun ⟨str, h⟩ => h ▸ settled_makePreferredPathString str, Settled.exists_eq⟩

theorem makePreferredPathString_idem_iff (s : List Char) :
    makePreferredPathString (makePreferredPathString s) = makePreferredPathString s ↔
      ¬ SpaceBeforeSlash s := by
  rw [makePreferredPathString_eq_iff, preferred_iff_settled, ← getLast?_makePreferredPathString]
  exact and_iff_right (settled_makePreferredPathString s)

/-! ### The copies of a path -/

namespace FsPath

/-- `FsPath(const FsPath& other)`. -/
def copy (other : FsPath) : FsPath := ofString other.path

/-- `FsPath(FsPath&& other)`: the string is moved, and made preferred as that of a copy. -/
def move (other : FsPath) : FsPath := ofString other.path

/-- The string of the path when `appendInternal` is left, before `scope_on_leave` makes it
preferred. -/
def appended (p : FsPath) (name : List Char) : List Char :=
  let name := stripSlashes name
  if name = [] then
    p.path
  else if p.path = [] then
    name
  else if p.path.getLast? = some '/' then
    p.path ++ name
  else
    p.path ++ '/' :: name

theorem appendInternal_eq (p : FsPath) (name : List Char) :
    p.appendInternal name = ofString (p.appended name) := by
  simp only [appendInternal, appended]
  split
  · rfl
  · split
    · rfl
    · split <;> rfl

/-- `concatInternal`. -/
def concatInternal (p : FsPath) (str : List Char) : FsPath :=
  ofString (if str = [] then p.path else p.path ++ str)

theorem concatInternal_eq (p : FsPath) (str : List Char) :
    p.concatInternal str = ofString (p.path ++ str) := by
  rw [concatInternal]
  split
  · next h => rw [h, List.append_nil]
  · rfl

/-- `operator+`: a copy of the path is added to, and what is returned is a copy of that. -/
def plus (p : FsPath) (str : List Char) : FsPath := (p.copy.concatInternal str).copy

theorem ofString_path (s : List Char) : (ofString s).path = makePreferredPathString s := rfl

/-- The path is equal to what the copying constructors make of it. -/
def CopiesEqual (p : FsPath) : Prop := p.copy.path = p.path ∧ p.move.path = p.path

instance (p : FsPath) : Decidable (CopiesEqual p) := inferInstanceAs (Decidable (_ ∧ _))

theorem copiesEqual_ofString_iff (s : List Char) :
    (ofString s).CopiesEqual ↔ ¬ SpaceBeforeSlash s := by
  rw [CopiesEqual, copy, move, ofString_path, ofString_path, and_self,
    makePreferredPathString_idem_iff]

/-- **Copies of a path.**  For each operation, a path it makes is equal to its copies exactly when
in the string it puts together no space stands before the trailing slashes. -/
theorem copies_iff (p : FsPath) (s : List Char) :
    (makePreferredPathString (makePreferredPathString s) = makePreferredPathString s ↔
      ¬ SpaceBeforeSlash s) ∧
    ((ofString s).CopiesEqual ↔ ¬ SpaceBeforeSlash s) ∧
    ((appendInternal p s).CopiesEqual ↔ ¬ SpaceBeforeSlash (p.appended s)) ∧
    ((concatInternal p s).CopiesEqual ↔ ¬ SpaceBeforeSlash (p.path ++ s)) := by
  refine ⟨makePreferredPathString_idem_iff s, copiesEqual_ofString_iff s, ?_, ?_⟩
  · rw [appendInternal_eq, copiesEqual_ofString_iff]
  · rw [concatInternal_eq, copiesEqual_ofString_iff]

/-- The slash goes last, and leaves the space before it. -/
theorem copies_space :
    makePreferredPathString (makePreferredPathString ['a', ' ', '/']) ≠
      makePreferredPathString ['a', ' ', '/'] ∧
    ¬ (ofString ['a', ' ', '/']).CopiesEqual ∧
    ¬ ((ofString ['a']).concatInternal [' ', '/']).CopiesEqual := by
  decide

end FsPath

end MyEngine.Io
