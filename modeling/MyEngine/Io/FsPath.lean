import Mathlib.Data.List.Chain

/-!
# Io — FsPath

`fs_path.cpp`: a path is a string every constructor and every operation passes through
`makePreferredPathString`.  Strings are their lists of characters.

* `Preferred`: the strings `makePreferredPathString` leaves as they are.
* `Normalized`: a path none of whose elements begins or ends with a space.  Each operation of
  the class trims the whole string, so only these can be taken apart and put together again:
  `append_ofElements`, `getRelativePath_ofElements`.
-/

namespace MyEngine.Io

/-- The elements of a path: `std::string_view`s into it. -/
abbrev Name := List Char

/-! ### `makePreferredPathString` -/

/-- The loops that erase leading and trailing spaces. -/
def trimSpaces (str : List Char) : List Char :=
  ((str.dropWhile (· = ' ')).reverse.dropWhile (· = ' ')).reverse

/-- The loop that replaces each `//` by `/`: of two adjacent slashes the first goes. -/
@[grind =] def removeDoubleSlashes : List Char → List Char
  | []     => []
  | c :: s =>
      if c = '/' ∧ s.head? = some '/' then removeDoubleSlashes s else c :: removeDoubleSlashes s

/-- The trailing slash goes, unless it is the whole path. -/
def removeTrailingSlash (str : List Char) : List Char :=
  if 1 < str.length ∧ str.getLast? = some '/' then str.dropLast else str

def makePreferredPathString (pathString : List Char) : List Char :=
  removeTrailingSlash (removeDoubleSlashes
    ((trimSpaces pathString).map fun c => if c = '\\' then '/' else c))

/-- A string that `makePreferredPathString` leaves as it is. -/
structure Preferred (s : List Char) : Prop where
  head_ne : s.head? ≠ some ' '
  last_ne : s.getLast? ≠ some ' '
  backslash : '\\' ∉ s
  chain : s.IsChain fun a b => ¬ (a = '/' ∧ b = '/')
  slash : s.getLast? = some '/' → s = ['/']

theorem dropWhile_space {s : List Char} (h : s.head? ≠ some ' ') :
    s.dropWhile (· = ' ') = s := by
  cases s with
  | nil => rfl
  | cons c s => simp_all [List.dropWhile]

theorem trimSpaces_eq {s : List Char} (h : Preferred s) : trimSpaces s = s := by
  have hl : s.reverse.head? ≠ some ' ' := by simpa using h.last_ne
  rw [trimSpaces, dropWhile_space h.head_ne, dropWhile_space hl, List.reverse_reverse]

theorem removeDoubleSlashes_eq {s : List Char}
    (h : s.IsChain fun a b => ¬ (a = '/' ∧ b = '/')) : removeDoubleSlashes s = s := by
  induction s with
  | nil => rfl
  | cons c s ih =>
      have hc : ¬ (c = '/' ∧ s.head? = some '/') := by
        rintro ⟨rfl, hs⟩
        cases s with
        | nil => simp at hs
        | cons d s => exact (List.isChain_cons_cons.mp h).1 ⟨rfl, by simpa using hs⟩
      rw [removeDoubleSlashes, if_neg hc, ih h.tail]

theorem makePreferredPathString_eq {s : List Char} (h : Preferred s) :
    makePreferredPathString s = s := by
  have hm : s.map (fun c => if c = '\\' then '/' else c) = s := by
    refine (List.map_congr_left fun c hc => if_neg ?_).trans (List.map_id s)
    rintro rfl
    exact h.backslash hc
  rw [makePreferredPathString, trimSpaces_eq h, hm, removeDoubleSlashes_eq h.chain,
    removeTrailingSlash, if_neg]
  rintro ⟨hlen, hl⟩
  simp [h.slash hl] at hlen

theorem head?_of_dropWhile_space {s : List Char} (h : s.dropWhile (· = ' ') = s) :
    s.head? ≠ some ' ' := by
  intro hs
  have := List.head?_dropWhile_not (· = ' ') s
  simp [h, hs] at this

theorem length_dropWhile_space (s : List Char) : (s.dropWhile (· = ' ')).length ≤ s.length :=
  (List.dropWhile_sublist _).length_le

theorem trimSpaces_ends {s : List Char} (h : s.length ≤ (trimSpaces s).length) :
    trimSpaces s = s ∧ s.head? ≠ some ' ' ∧ s.getLast? ≠ some ' ' := by
  have h₂ := length_dropWhile_space (s.dropWhile (· = ' ')).reverse
  rw [trimSpaces, List.length_reverse] at h
  rw [List.length_reverse] at h₂
  have e₁ : s.dropWhile (· = ' ') = s :=
    (List.dropWhile_sublist _).eq_of_length_le (h.trans h₂)
  have e₂ : s.reverse.dropWhile (· = ' ') = s.reverse := by
    refine (List.dropWhile_sublist _).eq_of_length_le ?_
    rw [e₁] at h
    rwa [List.length_reverse]
  refine ⟨by rw [trimSpaces, e₁, e₂, List.reverse_reverse], head?_of_dropWhile_space e₁, ?_⟩
  rw [List.getLast?_eq_head?_reverse]
  exact head?_of_dropWhile_space e₂

theorem length_removeDoubleSlashes (s : List Char) :
    (removeDoubleSlashes s).length ≤ s.length := by
  induction s with
  | nil => rfl
  | cons c s ih =>
      rw [removeDoubleSlashes]
      split <;> simp <;> omega

theorem removeTrailingSlash_sublist (s : List Char) : (removeTrailingSlash s).Sublist s := by
  rw [removeTrailingSlash]
  split
  · exact List.dropLast_sublist s
  · exact .refl s

theorem removeTrailingSlash_isChain {s : List Char} {R : Char → Char → Prop} (h : s.IsChain R) :
    (removeTrailingSlash s).IsChain R := by
  rw [removeTrailingSlash]
  split
  · exact h.dropLast
  · exact h

theorem head?_removeDoubleSlashes (s : List Char) : (removeDoubleSlashes s).head? = s.head? := by
  induction s with
  | nil => rfl
  | cons c s ih =>
      rw [removeDoubleSlashes]
      split
      · next h => rw [ih, h.1, h.2]; rfl
      · rfl

theorem isChain_removeDoubleSlashes (s : List Char) :
    (removeDoubleSlashes s).IsChain fun a b => ¬ (a = '/' ∧ b = '/') := by
  induction s with
  | nil => exact .nil
  | cons c s ih =>
      rw [removeDoubleSlashes]
      split
      · exact ih
      · next h =>
          refine ih.cons fun d hd hcd => h ⟨hcd.1, ?_⟩
          rw [← head?_removeDoubleSlashes, ← hcd.2]
          exact hd

theorem mem_removeDoubleSlashes {s : List Char} {c : Char} (h : c ∈ removeDoubleSlashes s) :
    c ∈ s := by
  induction s with
  | nil => exact h
  | cons d s ih =>
      rw [removeDoubleSlashes] at h
      split at h
      · exact List.mem_cons_of_mem _ (ih h)
      · rcases List.mem_cons.mp h with rfl | h
        · exact List.mem_cons_self
        · exact List.mem_cons_of_mem _ (ih h)

/-- What is left has no trailing slash, as there was no second one before it. -/
theorem removeTrailingSlash_slash {s : List Char}
    (h : s.IsChain fun a b => ¬ (a = '/' ∧ b = '/'))
    (hl : (removeTrailingSlash s).getLast? = some '/') : removeTrailingSlash s = ['/'] := by
  rw [removeTrailingSlash] at hl ⊢
  split at hl
  · next hs =>
      obtain ⟨u, rfl⟩ := List.getLast?_eq_some_iff.mp hs.2
      rw [List.dropLast_concat] at hl
      exact absurd ⟨rfl, rfl⟩ ((List.isChain_append.mp h).2.2 '/' hl '/' rfl)
  · next hs =>
      rw [if_neg hs]
      obtain ⟨u, rfl⟩ := List.getLast?_eq_some_iff.mp hl
      cases u with
      | nil => rfl
      | cons c u => exact absurd ⟨by simp, hl⟩ hs

/-- Exactly the preferred strings are left as they are. -/
theorem makePreferredPathString_eq_iff {s : List Char} :
    makePreferredPathString s = s ↔ Preferred s := by
  refine ⟨fun h => ?_, makePreferredPathString_eq⟩
  have hlen : s.length ≤ (trimSpaces s).length := by
    have h₁ := congrArg List.length h
    rw [makePreferredPathString] at h₁
    have h₂ := (removeTrailingSlash_sublist
      (removeDoubleSlashes ((trimSpaces s).map fun c => if c = '\\' then '/' else c))).length_le
    have h₃ := length_removeDoubleSlashes
      ((trimSpaces s).map fun c => if c = '\\' then '/' else c)
    rw [List.length_map] at h₃
    omega
  obtain ⟨ht, hhead, hlast⟩ := trimSpaces_ends hlen
  have hch := isChain_removeDoubleSlashes
    ((trimSpaces s).map fun c => if c = '\\' then '/' else c)
  have hslash := fun hl => removeTrailingSlash_slash hch hl
  have hsub := removeTrailingSlash_sublist
    (removeDoubleSlashes ((trimSpaces s).map fun c => if c = '\\' then '/' else c))
  have hchain := removeTrailingSlash_isChain hch
  rw [makePreferredPathString] at h
  rw [h] at hslash hsub hchain
  refine ⟨hhead, hlast, fun hb => ?_, hchain, hslash⟩
  obtain ⟨c, -, hc⟩ := List.mem_map.mp (mem_removeDoubleSlashes (hsub.subset hb))
  split at hc
  · exact absurd hc (by decide)
  · next hne => exact hne hc

/-! ### The class -/

/-- A path: no constructor and no operation leaves a string `makePreferredPathString` has not
been applied to. -/
structure FsPath where
  path : List Char
  preferred : ∃ str, makePreferredPathString str = path
  deriving DecidableEq

namespace FsPath

/-- `FsPath(StringType&& str)`. -/
def ofString (str : List Char) : FsPath := ⟨makePreferredPathString str, str, rfl⟩

/-- `FsPath()`. -/
def empty : FsPath := ⟨[], [], rfl⟩

/-- `FsPath{"/"}`. -/
def root : FsPath := ⟨['/'], ['/'], by decide⟩

theorem ext {p q : FsPath} (h : p.path = q.path) : p = q := by
  cases p; cases q; cases h; rfl

def isAbsolute (p : FsPath) : Bool := p.path.head? = some '/'

def isEmpty (p : FsPath) : Bool := p.path = []

def isRelative (p : FsPath) : Bool := !p.isEmpty && !p.isAbsolute

/-- `strings::Split(m_path, "/")`: no element for the empty string, else one more than there are
slashes. -/
def splitElements (p : FsPath) : List Name :=
  if p.path = [] then [] else p.path.splitOn '/'

/-- The loops of `appendInternal` that take the slashes off the appended name. -/
def stripSlashes (name : List Char) : List Char :=
  ((name.dropWhile (· = '/')).reverse.dropWhile (· = '/')).reverse

/-- `appendInternal`: whatever it appends, the path is made preferred again when it leaves. -/
def appendInternal (p : FsPath) (name : List Char) : FsPath :=
  let name := stripSlashes name
  if name = [] then
    ofString p.path
  else if p.path = [] then
    ofString name
  else if p.path.getLast? = some '/' then
    ofString (p.path ++ name)
  else
    ofString (p.path ++ '/' :: name)

/-- `operator/`: a copy of the path, which makes it preferred again, is appended to, and what is
returned is a copy of that. -/
def div (p other : FsPath) : FsPath :=
  ofString ((ofString p.path).appendInternal other.path).path

/-- The loop of `getRelativePath` over both sequences of elements: what is left of the first when
the second is at its end, or nothing when they differ. -/
@[grind =] def relativeElements : List Name → List Name → Option (List Name)
  | elements, []           => some elements
  | [], _ :: _             => some []
  | e :: elements, b :: base => if e = b then relativeElements elements base else none

def getRelativePath (p base : FsPath) : FsPath :=
  match relativeElements p.splitElements base.splitElements with
  | none          => empty
  | some elements => elements.foldl appendInternal empty

/-- `operator==`. -/
def equals (p q : FsPath) : Bool :=
  if p.isEmpty && q.isEmpty then
    true
  else if p.path = ['/'] || q.path = ['/'] then
    p.path = q.path
  else
    p.splitElements = q.splitElements

/-- The path and each of its elements are what `makePreferredPathString` makes of them. -/
def Normalized (p : FsPath) : Prop :=
  makePreferredPathString p.path = p.path ∧
    ∀ e ∈ p.splitElements, makePreferredPathString e = e

theorem intercalate_splitElements (p : FsPath) : ['/'].intercalate p.splitElements = p.path := by
  rw [splitElements]
  split
  · next h => rw [h]; rfl
  · exact List.intercalate_splitOn '/'

/-- `operator==` compares the strings. -/
theorem equals_iff {p q : FsPath} : p.equals q = true ↔ p = q := by
  refine ⟨fun h => ext ?_, ?_⟩
  · rw [equals] at h
    split at h
    · next he =>
        simp only [isEmpty, Bool.and_eq_true, decide_eq_true_eq] at he
        rw [he.1, he.2]
    · split at h
      · exact of_decide_eq_true h
      · rw [← intercalate_splitElements p, of_decide_eq_true h, intercalate_splitElements]
  · rintro rfl
    simp [equals]

end FsPath

namespace FsPath

theorem splitElements_eq_nil {p : FsPath} : p.splitElements = [] ↔ p = empty := by
  refine ⟨fun h => ext ?_, fun h => h ▸ rfl⟩
  rw [← intercalate_splitElements p, h]
  rfl

theorem splitElements_ne_singleton (p : FsPath) : p.splitElements ≠ [[]] := fun h => by
  have hp : p = empty := ext (by rw [← intercalate_splitElements p, h]; rfl)
  rw [hp] at h
  exact absurd h (by decide)

theorem splitElements_inj {p q : FsPath} (h : p.splitElements = q.splitElements) : p = q :=
  ext (by rw [← intercalate_splitElements p, h, intercalate_splitElements])

/-- Only an absolute path begins with an empty element. -/
theorem isAbsolute_iff {p : FsPath} : p.isAbsolute = true ↔ p.splitElements.head? = some [] := by
  rw [isAbsolute, decide_eq_true_eq, splitElements]
  cases hp : p.path with
  | nil => simp
  | cons c s =>
      rw [if_neg (List.cons_ne_nil _ _), List.splitOn_cons_eq_if_modifyHead]
      by_cases hc : c = '/'
      · simp [hc]
      · cases hs : s.splitOn '/' <;> simp [hc]

end FsPath

/-! ### Paths put together from their elements -/

/-- An element of a normalized path, other than the empty one before the first slash. -/
structure Plain (e : Name) : Prop extends Preferred e where
  ne_nil : e ≠ []
  slash_notMem : '/' ∉ e

theorem Preferred.cons_slash {s : List Char} (h : Preferred s) (hs : s.head? ≠ some '/') :
    Preferred ('/' :: s) where
  head_ne := by simp
  last_ne := by
    cases s with
    | nil => simp
    | cons c s => simpa using h.last_ne
  backslash := by simpa using h.backslash
  chain := h.chain.cons fun c hc hcs => hs (hcs.2 ▸ hc)
  slash hl := by
    cases s with
    | nil => rfl
    | cons c s =>
        have := h.slash (by simpa using hl)
        rw [this] at hs
        exact absurd rfl hs

theorem Plain.last_ne_slash {e : Name} (h : Plain e) : e.getLast? ≠ some '/' := fun hl =>
  h.slash_notMem (List.mem_of_getLast? hl)

theorem Plain.head_ne_slash {e : Name} (h : Plain e) : e.head? ≠ some '/' := fun hh =>
  h.slash_notMem (List.mem_of_head? hh)

theorem Preferred.append_slash {e : Name} {s : List Char} (he : Plain e) (h : Preferred s)
    (hne : s ≠ []) (hs : s.head? ≠ some '/') : Preferred (e ++ '/' :: s) where
  head_ne := by
    rw [List.head?_append_of_ne_nil _ he.ne_nil]
    exact he.head_ne
  last_ne := by
    rw [List.getLast?_append_of_ne_nil _ (by simp)]
    exact (h.cons_slash hs).last_ne
  backslash := by simpa using ⟨he.backslash, h.backslash⟩
  chain := by
    refine List.isChain_append.mpr ⟨he.chain, (h.cons_slash hs).chain, fun c hc _ _ hcs => ?_⟩
    exact he.last_ne_slash (hcs.1 ▸ hc)
  slash hl := by
    rw [List.getLast?_append_of_ne_nil _ (by simp)] at hl
    have := (h.cons_slash hs).slash hl
    exact absurd (List.cons.inj this).2 hne

/-- `t` as a relative path. -/
def joined (t : List Name) : List Char := ['/'].intercalate t

theorem joined_cons {e : Name} {t : List Name} (h : t ≠ []) :
    joined (e :: t) = e ++ '/' :: joined t := by
  cases t with
  | nil => exact absurd rfl h
  | cons f t => simp [joined, List.intercalate_cons_cons]

theorem joined_singleton (e : Name) : joined [e] = e :=
  List.intercalate_singleton

theorem joined_append {t t' : List Name} (h : t ≠ []) (h' : t' ≠ []) :
    joined (t ++ t') = joined t ++ '/' :: joined t' := by
  induction t with
  | nil => exact absurd rfl h
  | cons e t ih =>
      by_cases ht : t = []
      · subst ht
        rw [List.singleton_append, joined_cons h', joined_singleton]
      · rw [List.cons_append, joined_cons (by simp [ht]), ih ht, joined_cons ht]
        simp

section Plain
variable {t t' : List Name}

theorem head?_joined (ht : ∀ e ∈ t, Plain e) : (joined t).head? ≠ some '/' := by
  cases t with
  | nil => simp [joined]
  | cons e t =>
      have he := ht e List.mem_cons_self
      cases t with
      | nil => simpa [joined] using he.head_ne_slash
      | cons f t =>
          rw [joined_cons (by simp), List.head?_append_of_ne_nil _ he.ne_nil]
          exact he.head_ne_slash

theorem joined_ne_nil (ht : ∀ e ∈ t, Plain e) (h : t ≠ []) : joined t ≠ [] := by
  cases t with
  | nil => exact absurd rfl h
  | cons e t =>
      have he := ht e List.mem_cons_self
      cases t with
      | nil => simpa [joined] using he.ne_nil
      | cons f t => rw [joined_cons (by simp)]; simp

theorem preferred_joined (ht : ∀ e ∈ t, Plain e) : Preferred (joined t) := by
  induction t with
  | nil => exact ⟨by simp [joined], by simp [joined], by simp [joined], .nil, by simp [joined]⟩
  | cons e t ih =>
      have he := ht e List.mem_cons_self
      have ht' : ∀ f ∈ t, Plain f := fun f hf => ht f (List.mem_cons_of_mem _ hf)
      by_cases h : t = []
      · subst h
        simpa [joined] using he.toPreferred
      · rw [joined_cons h]
        exact Preferred.append_slash he (ih ht') (joined_ne_nil ht' h) (head?_joined ht')

theorem dropWhile_slash {s : List Char} (h : s.head? ≠ some '/') :
    s.dropWhile (· = '/') = s := by
  cases s with
  | nil => rfl
  | cons c s => simp_all [List.dropWhile]

theorem stripSlashes_eq {s : List Char} (hh : s.head? ≠ some '/') (hl : s.getLast? ≠ some '/') :
    FsPath.stripSlashes s = s := by
  have hl' : s.reverse.head? ≠ some '/' := by simpa using hl
  rw [FsPath.stripSlashes, dropWhile_slash hh, dropWhile_slash hl', List.reverse_reverse]

theorem getLast?_joined (ht : ∀ e ∈ t, Plain e) : (joined t).getLast? ≠ some '/' := fun hl => by
  have := (preferred_joined ht).slash hl
  exact head?_joined ht (by rw [this]; rfl)

end Plain

namespace FsPath

/-- The absolute path with the elements `t` below the root. -/
def absolute (t : List Name) : FsPath := ofString ('/' :: joined t)

/-- The relative path with the elements `t`. -/
def relative (t : List Name) : FsPath := ofString (joined t)

section Plain
variable {t t' : List Name} {e : Name}

theorem absolute_path (ht : ∀ e ∈ t, Plain e) : (absolute t).path = '/' :: joined t :=
  makePreferredPathString_eq ((preferred_joined ht).cons_slash (head?_joined ht))

theorem relative_path (ht : ∀ e ∈ t, Plain e) : (relative t).path = joined t :=
  makePreferredPathString_eq (preferred_joined ht)

theorem splitOn_joined (ht : ∀ e ∈ t, Plain e) (h : t ≠ []) : (joined t).splitOn '/' = t :=
  List.splitOn_intercalate '/' (fun e he => (ht e he).slash_notMem) h

theorem splitElements_root : root.splitElements = [[], []] := by decide

theorem splitElements_absolute (ht : ∀ e ∈ t, Plain e) (h : t ≠ []) :
    (absolute t).splitElements = [] :: t := by
  rw [splitElements, absolute_path ht, if_neg (List.cons_ne_nil _ _),
    List.splitOn_cons_eq_if_modifyHead, splitOn_joined ht h]
  rfl

theorem splitElements_relative (ht : ∀ e ∈ t, Plain e) : (relative t).splitElements = t := by
  rw [splitElements, relative_path ht]
  by_cases h : t = []
  · subst h; rfl
  · rw [if_neg (joined_ne_nil ht h), splitOn_joined ht h]

theorem absolute_nil : absolute [] = root := by decide

theorem relative_nil : relative [] = empty := by decide

theorem forall_concat {P : Name → Prop} (ht : ∀ e ∈ t, P e) (he : P e) :
    ∀ f ∈ t ++ [e], P f := fun f hf => by
  rcases List.mem_append.mp hf with hf | hf
  · exact ht f hf
  · exact List.mem_singleton.mp hf ▸ he

theorem appendInternal_absolute (ht : ∀ e ∈ t, Plain e) (he : Plain e) :
    (absolute t).appendInternal e = absolute (t ++ [e]) := by
  rw [appendInternal, stripSlashes_eq he.head_ne_slash he.last_ne_slash, absolute_path ht]
  by_cases h : t = []
  · subst h
    simp [he.ne_nil, joined, absolute]
  · have hl : ('/' :: joined t).getLast? ≠ some '/' := by
      intro hl
      have := ((preferred_joined ht).cons_slash (head?_joined ht)).slash hl
      exact joined_ne_nil ht h (List.cons.inj this).2
    simp [he.ne_nil, hl, absolute, joined_append h, joined_singleton]

theorem appendInternal_relative (ht : ∀ e ∈ t, Plain e) (he : Plain e) :
    (relative t).appendInternal e = relative (t ++ [e]) := by
  rw [appendInternal, stripSlashes_eq he.head_ne_slash he.last_ne_slash, relative_path ht]
  by_cases h : t = []
  · subst h
    simp [he.ne_nil, joined, relative]
  · simp [he.ne_nil, joined_ne_nil ht h, getLast?_joined ht, relative, joined_append h,
      joined_singleton]

theorem foldl_absolute (ht : ∀ e ∈ t, Plain e) (ht' : ∀ e ∈ t', Plain e) :
    t'.foldl appendInternal (absolute t) = absolute (t ++ t') := by
  induction t' generalizing t with
  | nil => rw [List.append_nil]; rfl
  | cons e t' ih =>
      have he := ht' e List.mem_cons_self
      rw [List.foldl_cons, appendInternal_absolute ht he,
        ih (forall_concat ht he) fun f hf => ht' f (List.mem_cons_of_mem _ hf),
        List.append_assoc]
      rfl

/-- The empty element before the first slash adds nothing. -/
theorem foldl_root (ht : ∀ e ∈ t, Plain e) : ([] :: t).foldl appendInternal root = absolute t := by
  have h : root.appendInternal [] = absolute [] := by decide
  rw [List.foldl_cons, h, foldl_absolute (by simp) ht]
  rfl

theorem absolute_inj (ht : ∀ e ∈ t, Plain e) (ht' : ∀ e ∈ t', Plain e)
    (h : absolute t = absolute t') : t = t' := by
  have hj : joined t = joined t' := by
    have := congrArg path h
    rw [absolute_path ht, absolute_path ht'] at this
    exact (List.cons.inj this).2
  rw [← splitElements_relative ht, ← splitElements_relative ht', relative, relative, hj]

theorem absolute_eq_root (ht : ∀ e ∈ t, Plain e) (h : t ≠ []) : absolute t ≠ root := fun he =>
  h (absolute_inj ht (by simp) (he.trans absolute_nil.symm))

theorem relative_isRelative (ht : ∀ e ∈ t, Plain e) (h : t ≠ []) :
    (relative t).isRelative = true := by
  simp [isRelative, isEmpty, isAbsolute, relative_path ht, joined_ne_nil ht h, head?_joined ht]

theorem foldl_relative (ht : ∀ e ∈ t, Plain e) (ht' : ∀ e ∈ t', Plain e) :
    t'.foldl appendInternal (relative t) = relative (t ++ t') := by
  induction t' generalizing t with
  | nil => rw [List.append_nil]; rfl
  | cons e t' ih =>
      have he := ht' e List.mem_cons_self
      rw [List.foldl_cons, appendInternal_relative ht he,
        ih (forall_concat ht he) fun f hf => ht' f (List.mem_cons_of_mem _ hf),
        List.append_assoc]
      rfl

theorem relativeElements_append (b t : List Name) : relativeElements (b ++ t) b = some t := by
  induction b with
  | nil => cases t <;> rfl
  | cons e b ih => rw [List.cons_append, relativeElements, if_pos rfl, ih]

/-- What is left of an absolute path below one of its ancestors. -/
theorem getRelativePath_absolute (ht : ∀ e ∈ t, Plain e) (ht' : ∀ e ∈ t', Plain e)
    (h : t ≠ []) : (absolute (t ++ t')).getRelativePath (absolute t) = relative t' := by
  have htt : ∀ e ∈ t ++ t', Plain e := fun e he =>
    (List.mem_append.mp he).elim (ht e) (ht' e)
  rw [getRelativePath, splitElements_absolute htt (by simp [h]), splitElements_absolute ht h,
    ← List.cons_append, relativeElements_append]
  show t'.foldl appendInternal empty = _
  rw [← relative_nil, foldl_relative (by simp) ht']
  rfl

/-- The root has two empty elements, and no other path agrees with it in both. -/
theorem getRelativePath_root (ht : ∀ e ∈ t, Plain e) :
    (absolute t).getRelativePath root = empty := by
  cases t with
  | nil => decide
  | cons e t =>
      rw [getRelativePath, splitElements_absolute ht (by simp), splitElements_root]
      simp [relativeElements, (ht e List.mem_cons_self).ne_nil]

theorem ofString_absolute (ht : ∀ e ∈ t, Plain e) : ofString (absolute t).path = absolute t := by
  rw [absolute_path ht]
  rfl

/-- A relative path is appended to an absolute one. -/
theorem appendInternal_joined (ht : ∀ e ∈ t, Plain e) (ht' : ∀ e ∈ t', Plain e) :
    (absolute t).appendInternal (relative t').path = absolute (t ++ t') := by
  rw [appendInternal, relative_path ht',
    stripSlashes_eq (head?_joined ht') (getLast?_joined ht')]
  by_cases h' : t' = []
  · subst h'
    simp [joined, ofString_absolute ht]
  · rw [if_neg (joined_ne_nil ht' h'), absolute_path ht, if_neg (List.cons_ne_nil _ _)]
    by_cases h : t = []
    · subst h; rfl
    · have hl : ('/' :: joined t).getLast? ≠ some '/' := fun hl => by
        have := ((preferred_joined ht).cons_slash (head?_joined ht)).slash hl
        exact joined_ne_nil ht h (List.cons.inj this).2
      rw [if_neg hl, absolute, joined_append h h']
      rfl

/-- `operator/` of a normalized path and a relative one below it. -/
theorem div_absolute (ht : ∀ e ∈ t, Plain e) (ht' : ∀ e ∈ t', Plain e) :
    (absolute t).div (relative t') = absolute (t ++ t') := by
  have htt : ∀ e ∈ t ++ t', Plain e := fun e he =>
    (List.mem_append.mp he).elim (ht e) (ht' e)
  rw [div, ofString_absolute ht, appendInternal_joined ht ht', ofString_absolute htt]

/-- Without two adjacent slashes and without a trailing one, only the first element can be
empty, and it is when the string begins with a slash. -/
theorem nil_notMem_splitOn {s : List Char} (h : s.IsChain fun a b => ¬ (a = '/' ∧ b = '/'))
    (hl : s.getLast? ≠ some '/') (hne : s ≠ []) :
    [] ∉ (s.splitOn '/').tail ∧ (s.head? ≠ some '/' → [] ∉ s.splitOn '/') := by
  induction s with
  | nil => exact absurd rfl hne
  | cons c s ih =>
      rw [List.splitOn_cons_eq_if_modifyHead]
      by_cases hs : s = []
      · subst hs
        have hc : c ≠ '/' := by simpa using hl
        simp [hc]
      · obtain ⟨ih₁, ih₂⟩ := ih h.tail (by rwa [List.getLast?_cons_of_ne_nil hs] at hl) hs
        by_cases hc : c = '/'
        · subst hc
          have hh : s.head? ≠ some '/' := fun hh =>
            (List.isChain_cons.mp h).1 '/' hh ⟨rfl, rfl⟩
          simpa using ih₂ hh
        · rw [if_neg (by simpa using hc)]
          cases hsp : s.splitOn '/' with
          | nil => exact absurd hsp (List.splitOn_ne_nil _ _)
          | cons e t =>
              rw [hsp] at ih₁
              exact ⟨ih₁, fun _ => by simpa using ih₁⟩

theorem slash_notMem_splitOn (s : List Char) : ∀ e ∈ s.splitOn '/', '/' ∉ e := by
  induction s with
  | nil => simp
  | cons c s ih =>
      rw [List.splitOn_cons_eq_if_modifyHead]
      by_cases hc : c = '/'
      · simpa [hc] using ih
      · rw [if_neg (by simpa using hc)]
        cases hsp : s.splitOn '/' with
        | nil => exact absurd hsp (List.splitOn_ne_nil _ _)
        | cons e t => simpa [hsp, Ne.symm hc] using ih

/-- The normalized absolute paths are those put together from plain elements. -/
theorem exists_absolute {p : FsPath} (hp : p.Normalized) (ha : p.isAbsolute = true) :
    ∃ t, (∀ e ∈ t, Plain e) ∧ p = absolute t := by
  have hpre := makePreferredPathString_eq_iff.mp hp.1
  obtain ⟨s, hs⟩ := List.head?_eq_some_iff.mp (of_decide_eq_true ha)
  by_cases hne : s = []
  · subst hne
    exact ⟨[], by simp, ext (by rw [hs, absolute_nil]; rfl)⟩
  rw [hs] at hpre
  have hl : s.getLast? ≠ some '/' := fun hl => by
    rw [← List.getLast?_cons_of_ne_nil (x := '/') hne] at hl
    exact hne (List.cons.inj (hpre.slash hl)).2
  have hh : s.head? ≠ some '/' := fun hh => (List.isChain_cons.mp hpre.chain).1 '/' hh ⟨rfl, rfl⟩
  have hnil := (nil_notMem_splitOn hpre.chain.tail hl hne).2 hh
  have hel : p.splitElements = [] :: s.splitOn '/' := by
    rw [splitElements, hs, if_neg (List.cons_ne_nil _ _), List.splitOn_cons_eq_if_modifyHead]
    rfl
  have ht : ∀ e ∈ s.splitOn '/', Plain e := fun e he =>
    { makePreferredPathString_eq_iff.mp (hp.2 e (hel ▸ List.mem_cons_of_mem _ he)) with
      ne_nil := fun h => hnil (h ▸ he)
      slash_notMem := slash_notMem_splitOn s e he }
  refine ⟨s.splitOn '/', ht, ext ?_⟩
  rw [absolute_path ht, hs, joined, List.intercalate_splitOn]

end Plain

end FsPath

end MyEngine.Io
