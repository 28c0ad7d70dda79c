import MyEngine.Io.FsPathCopies
import MyEngine.Io.FsPathEquality
import MyEngine.Support.Search

/-!
# Io — FsPathParts

`fs_path.cpp`: the parent, the name, the stem and the extension of a path are cut out of its string;
putting them together again makes the string preferred once more.

* `length_operatorDiv_le`: what is put together is no longer than its parts, and is as long as they
  are when no space has gone.
* `parts_iff`: parent and name are the path again exactly when no space stands before the last
  separator, nor at the end.
-/

namespace MyEngine.Io

open Support

/-! ### What the passes leave of the length -/

theorem length_makePreferredPathString (s : List Char) :
    (makePreferredPathString s).length ≤ (trimSpaces s).length := by
  have h₁ := (removeTrailingSlash_sublist
    (removeDoubleSlashes ((trimSpaces s).map toSlash))).length_le
  have h₂ := length_removeDoubleSlashes ((trimSpaces s).map toSlash)
  rw [List.length_map] at h₂
  exact h₁.trans h₂

theorem length_trimSpaces (s : List Char) : (trimSpaces s).length ≤ s.length := by
  have h₁ := length_dropWhile_space (s.dropWhile (· = ' ')).reverse
  have h₂ := length_dropWhile_space s
  rw [List.length_reverse] at h₁
  rw [trimSpaces, List.length_reverse]
  exact h₁.trans h₂

theorem length_makePreferredPathString_le (s : List Char) :
    (makePreferredPathString s).length ≤ s.length :=
  (length_makePreferredPathString s).trans (length_trimSpaces s)

/-- Where nothing is lost, there is no space at either end. -/
theorem ends_of_length_le {s : List Char} (h : s.length ≤ (makePreferredPathString s).length) :
    s.head? ≠ some ' ' ∧ s.getLast? ≠ some ' ' :=
  (trimSpaces_ends (h.trans (length_makePreferredPathString s))).2

theorem Settled.preferred {s : List Char} (h : Settled s) (hl : s.getLast? ≠ some ' ') :
    Preferred s :=
  preferred_iff_settled.mpr ⟨h, hl⟩

/-- A settled string is longer than what the passes make of it when it ends in a space. -/
theorem Settled.makePreferredPathString_eq_iff {s : List Char} (h : Settled s) :
    makePreferredPathString s = s ↔ s.getLast? ≠ some ' ' := by
  rw [Io.makePreferredPathString_eq_iff, preferred_iff_settled]
  exact and_iff_right h

/-- Up to a separator in the middle a settled string is settled. -/
theorem Settled.before_slash {u v : List Char} (h : Settled (u ++ '/' :: v)) (hu : u ≠ []) :
    Settled u where
  head_ne := by
    have := h.head_ne
    rwa [List.head?_append_of_ne_nil _ hu] at this
  backslash hmem := h.backslash (List.mem_append_left _ hmem)
  chain := (List.isChain_append.mp h.chain).1
  slash hl := absurd ⟨rfl, rfl⟩ ((List.isChain_append.mp h.chain).2.2 '/' hl '/' rfl)

namespace FsPath

theorem settled (p : FsPath) : Settled p.path := by
  obtain ⟨str, h⟩ := p.preferred
  exact h ▸ settled_makePreferredPathString str

/-! ### The code -/

/-- `operator/` with a string. -/
def operatorDiv (path : FsPath) (str : List Char) : FsPath := (path.copy.appendInternal str).copy

def getParentPath (p : FsPath) : FsPath :=
  if p.path = [] then
    empty
  else
    match findLast '/' p.path with
    | some 0              => ofString ['/']
    | none                => empty
    | some separatorIndex => ofString (p.path.take separatorIndex)

def getName (p : FsPath) : Name :=
  match findLast '/' p.path with
  | none                => p.path
  | some separatorIndex => p.path.drop (separatorIndex + 1)

def getExtension (p : FsPath) : Name :=
  let fileName := p.getName
  if fileName = [] ∨ fileName = ['.'] ∨ fileName = ['.', '.'] then
    []
  else
    match findLast '.' fileName with
    | none | some 0  => []
    | some dotIndex  => fileName.drop dotIndex

def getStem (p : FsPath) : Name :=
  let fileName := p.getName
  if fileName = [] ∨ fileName = ['.'] ∨ fileName = ['.', '.'] then
    fileName
  else
    match findLast '.' fileName with
    | none | some 0  => fileName
    | some dotIndex  => fileName.take dotIndex

/-! ### Putting together -/

/-- What `appendInternal` puts together is no longer than its parts. -/
theorem length_appended_le (p : FsPath) (name : List Char) :
    (p.appended name).length ≤ p.path.length + 1 + name.length := by
  have hstrip : (stripSlashes name).length ≤ name.length := by
    have h₁ := (List.dropWhile_sublist (· = '/') (l := name)).length_le
    have h₂ :=
      (List.dropWhile_sublist (· = '/') (l := (name.dropWhile (· = '/')).reverse)).length_le
    rw [List.length_reverse] at h₂
    rw [stripSlashes, List.length_reverse]
    exact h₂.trans h₁
  simp only [appended]
  split
  · omega
  · split
    · omega
    · split
      · rw [List.length_append]
        omega
      · rw [List.length_append, List.length_cons]
        omega

theorem operatorDiv_path (p : FsPath) (str : List Char) : (p.operatorDiv str).path =
    makePreferredPathString (makePreferredPathString (p.copy.appended str)) := by
  rw [operatorDiv, appendInternal_eq, copy, ofString_path, ofString_path]

/-- The copies on the way take off spaces; where the length stays, they take nothing. -/
theorem length_operatorDiv_le (p : FsPath) (str : List Char) :
    (p.operatorDiv str).path.length ≤ (p.copy.appended str).length := by
  rw [operatorDiv_path]
  exact (length_makePreferredPathString_le _).trans (length_makePreferredPathString_le _)

theorem copy_eq_iff {p : FsPath} : p.copy = p ↔ p.path.getLast? ≠ some ' ' := by
  rw [← p.settled.makePreferredPathString_eq_iff, ← ofString_path]
  exact ⟨fun h => congrArg path h, fun h => ext h⟩

/-- A name behind a path. -/
theorem appended_eq {p : FsPath} {name : Name} (hslash : '/' ∉ name) (hne : name ≠ [])
    (hp : p.path ≠ []) : p.appended name =
      if p.path.getLast? = some '/' then p.path ++ name else p.path ++ '/' :: name := by
  have hstrip : stripSlashes name = name :=
    stripSlashes_eq (fun h => hslash (List.mem_of_head? h)) fun h => hslash (List.mem_of_getLast? h)
  simp only [appended, hstrip, if_neg hne, if_neg hp]

/-! ### Parent and name -/

section Slash
variable {p : FsPath} {u : List Char} {v : Name}

theorem getName_of_slash (hp : p.path = u ++ '/' :: v) (hv : '/' ∉ v) : p.getName = v := by
  rw [getName, hp, findLast_append_cons u hv]
  exact List.drop_length_add_append 1

theorem getName_of_notMem (hp : '/' ∉ p.path) : p.getName = p.path := by
  rw [getName, findLast_of_notMem hp]

theorem getParentPath_of_slash (hp : p.path = u ++ '/' :: v) (hv : '/' ∉ v) :
    p.getParentPath = if u = [] then root else ofString u := by
  have hne : p.path ≠ [] := by
    rw [hp]
    exact List.append_ne_nil_of_right_ne_nil u (List.cons_ne_nil _ _)
  rw [getParentPath, if_neg hne, hp, findLast_append_cons u hv]
  cases u with
  | nil => rfl
  | cons c u =>
      change ofString ((c :: u ++ '/' :: v).take (c :: u).length) = _
      rw [List.take_left, if_neg (List.cons_ne_nil _ _)]

theorem root_path : root.path = ['/'] := rfl

/-- Only the root has no name behind its last separator. -/
theorem name_ne_nil (hp : p.path = u ++ '/' :: v) (hroot : p ≠ root) : v ≠ [] := by
  rintro rfl
  exact hroot (ext (p.settled.slash (by rw [hp, List.getLast?_append_cons]; rfl)))

/-- Where the path itself is put together, only a space at its end is lost. -/
theorem operatorDiv_eq_iff {q : FsPath} {str : List Char} (h : q.copy.appended str = p.path) :
    q.operatorDiv str = p ↔ p.path.getLast? ≠ some ' ' := by
  constructor
  · rintro hq
    have hlength := length_makePreferredPathString_le (makePreferredPathString p.path)
    rw [← h, ← operatorDiv_path, hq, h] at hlength
    exact (ends_of_length_le hlength).2
  · intro hl
    have hpreferred := p.settled.makePreferredPathString_eq_iff.mpr hl
    refine ext ?_
    rw [operatorDiv_path, h, hpreferred, hpreferred]

/-- The parent, with the space before the last separator lost. -/
theorem length_ofString_lt (hu : u.getLast? = some ' ') :
    (ofString u).copy.path.length < u.length := by
  have h₁ := length_makePreferredPathString_le (makePreferredPathString u)
  have h₂ : (makePreferredPathString u).length < u.length := by
    by_contra hle
    exact (ends_of_length_le (Nat.le_of_not_lt hle)).2 hu
  rw [copy, ofString_path, ofString_path]
  exact Nat.lt_of_le_of_lt h₁ h₂

theorem appended_root (hv : '/' ∉ v) (hne : v ≠ []) : root.copy.appended v = '/' :: v := by
  have hcopy : root.copy = root := copy_eq_iff.mpr (by decide)
  rw [hcopy, appended_eq hv hne (by decide), if_pos (by decide)]
  rfl

theorem appended_parent (hp : p.path = u ++ '/' :: v) (hv : '/' ∉ v) (hne : v ≠ [])
    (hu : u ≠ []) (hlast : u.getLast? ≠ some ' ') :
    (ofString u).copy.appended v = u ++ '/' :: v := by
  have hsettled : Settled u := (hp ▸ p.settled).before_slash hu
  have hpath : (ofString u).path = u := hsettled.makePreferredPathString_eq_iff.mpr hlast
  have hcopy : (ofString u).copy = ofString u := copy_eq_iff.mpr (by rwa [hpath])
  have hslash : u.getLast? ≠ some '/' := by
    intro hl
    rw [hsettled.slash hl] at hp
    have hchain := p.settled.chain
    rw [hp] at hchain
    exact (List.isChain_cons_cons.mp hchain).1 ⟨rfl, rfl⟩
  rw [hcopy, appended_eq hv hne (by rwa [hpath]), hpath, if_neg hslash]

theorem operatorDiv_parts_iff (hp : p.path = u ++ '/' :: v) (hv : '/' ∉ v) (hroot : p ≠ root) :
    p.getParentPath.operatorDiv p.getName = p ↔
      u.getLast? ≠ some ' ' ∧ p.path.getLast? ≠ some ' ' := by
  have hne := name_ne_nil hp hroot
  rw [getParentPath_of_slash hp hv, getName_of_slash hp hv]
  split
  case isTrue hu =>
    subst hu
    rw [operatorDiv_eq_iff ((appended_root hv hne).trans hp.symm)]
    simp
  case isFalse hu =>
    by_cases hlast : u.getLast? = some ' '
    · refine iff_of_false (fun hq => ?_) fun h => h.1 hlast
      have hlength := (length_operatorDiv_le (ofString u) v).trans (length_appended_le _ v)
      have hlt := length_ofString_lt hlast
      rw [hq, hp, List.length_append, List.length_cons] at hlength
      omega
    · rw [operatorDiv_eq_iff ((appended_parent hp hv hne hu hlast).trans hp.symm)]
      simp [hlast]

end Slash

/-! ### Stem and extension -/

theorem getStem_append_getExtension (p : FsPath) : p.getStem ++ p.getExtension = p.getName := by
  simp only [getStem, getExtension]
  split
  · exact List.append_nil _
  · split
    · exact List.append_nil _
    · exact List.append_nil _
    · exact List.take_append_drop _ _

/-- Parent and name are the path again, and so are stem and extension the name. -/
def PartsLaw (p : FsPath) : Prop :=
  ('/' ∈ p.path → p ≠ root → (p.getParentPath.operatorDiv p.getName).operatorEq p = true) ∧
    p.getStem ++ p.getExtension = p.getName

/-- A space stands before the last separator or at the end. -/
def SpaceAtPart (p : FsPath) : Prop :=
  ∃ separatorIndex ∈ findLast '/' p.path,
    (p.path.take separatorIndex).getLast? = some ' ' ∨ p.path.getLast? = some ' '

/-- **Parts of a path.**  A path is put together again from its parent and its name exactly when no
space stands before its last separator, nor at its end; stem and extension are always the name. -/
theorem parts_iff (p : FsPath) : p.PartsLaw ↔ ¬ p.SpaceAtPart := by
  rw [PartsLaw, and_iff_left p.getStem_append_getExtension, SpaceAtPart]
  rcases exists_last '/' p.path with hnot | ⟨u, v, hp, hv⟩
  · rw [findLast_of_notMem hnot]
    simp [hnot]
  · have hfind : findLast '/' p.path = some u.length := by rw [hp, findLast_append_cons u hv]
    have hmem : '/' ∈ p.path := by simp [hp]
    have htake : p.path.take u.length = u := by rw [hp, List.take_left]
    simp only [hfind, Option.mem_def, Option.some.injEq, exists_eq_left', htake, hmem,
      true_imp_iff, not_or, operatorEq_iff]
    by_cases hroot : p = root
    · refine iff_of_true (fun h => absurd hroot h) ?_
      subst hroot
      have hu : u = [] := by
        have := congrArg List.length hp
        simp only [root_path, List.length_append, List.length_cons, List.length_nil] at this
        exact List.eq_nil_of_length_eq_zero (by omega)
      subst hu
      exact ⟨by simp, by decide⟩
    · rw [operatorDiv_parts_iff hp hv hroot]
      exact imp_iff_right hroot

/-- The parent of `a /b` is `a`, so that the name is put below another one. -/
theorem parts_space : ¬ (ofString ['a', ' ', '/', 'b']).PartsLaw := by
  rintro ⟨h, -⟩
  have heq := operatorEq_iff.mp (h (by decide) (by decide))
  revert heq
  decide

end FsPath

end MyEngine.Io
