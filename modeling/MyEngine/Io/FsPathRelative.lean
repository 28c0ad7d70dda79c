import MyEngine.Io.FsPathParts

/-!
# Io — FsPathRelative

`fs_path.cpp`: `getRelativePath` compares the elements of two paths, and appends those left of the
first one by one to an empty path.

* `names`: the elements without the empty ones that the separator of the root makes.
* `foldl_path_iff`: the names left are the path relative to the base exactly when `append` finds no
  space to take off them.
* `relative_iff`: which pairs of paths the relative path leads from one to the other.
-/

namespace MyEngine.Io

/-! ### Names -/

/-- An element that is not the empty one beside the separator of the root. -/
structure IsName (e : Name) : Prop where
  ne_nil : e ≠ []
  slash : '/' ∉ e
  backslash : '\\' ∉ e

theorem joined_length_concat {t : List Name} (h : t ≠ []) (e : Name) :
    (joined (t ++ [e])).length = (joined t).length + 1 + e.length := by
  rw [joined_append h (List.cons_ne_nil e []), joined_singleton, List.length_append,
    List.length_cons]
  omega

theorem isChain_of_slash {e : Name} (h : '/' ∉ e) :
    e.IsChain fun a b => ¬ (a = '/' ∧ b = '/') := by
  refine List.Pairwise.isChain (List.pairwise_iff_forall_sublist.mpr fun {a b} hab => ?_)
  rintro ⟨rfl, -⟩
  exact h (hab.subset List.mem_cons_self)

theorem IsName.head_ne {e : Name} (h : IsName e) : e.head? ≠ some '/' := fun hh =>
  h.slash (List.mem_of_head? hh)

theorem IsName.last_ne {e : Name} (h : IsName e) : e.getLast? ≠ some '/' := fun hl =>
  h.slash (List.mem_of_getLast? hl)

/-- `append` has nothing to take off: the first name does not begin with a space, and none ends in
one. -/
structure Tight (t : List Name) : Prop where
  head : ∀ e ∈ t.head?, e.head? ≠ some ' '
  last : ∀ e ∈ t, e.getLast? ≠ some ' '

instance (t : List Name) : Decidable (Tight t) :=
  decidable_of_iff ((∀ e ∈ t.head?, e.head? ≠ some ' ') ∧ ∀ e ∈ t, e.getLast? ≠ some ' ')
    ⟨fun h => ⟨h.1, h.2⟩, fun h => ⟨h.head, h.last⟩⟩

theorem tight_concat {t : List Name} (h : t ≠ []) (e : Name) :
    Tight (t ++ [e]) ↔ Tight t ∧ e.getLast? ≠ some ' ' := by
  have hhead : (t ++ [e]).head? = t.head? := List.head?_append_of_ne_nil _ h
  constructor
  · rintro ⟨hh, hl⟩
    exact ⟨⟨hhead ▸ hh, fun f hf => hl f (List.mem_append_left _ hf)⟩,
      hl e (List.mem_append_right _ List.mem_cons_self)⟩
  · rintro ⟨⟨hh, hl⟩, he⟩
    refine ⟨hhead.symm ▸ hh, fun f hf => ?_⟩
    rcases List.mem_append.mp hf with hf | hf
    · exact hl f hf
    · exact List.mem_singleton.mp hf ▸ he

theorem tight_singleton (e : Name) :
    Tight [e] ↔ e.head? ≠ some ' ' ∧ e.getLast? ≠ some ' ' :=
  ⟨fun h => ⟨h.head e rfl, h.last e List.mem_cons_self⟩,
    fun h => ⟨fun _ hf => Option.some.inj hf ▸ h.1, fun _ hf => List.mem_singleton.mp hf ▸ h.2⟩⟩

section Joined
variable {t : List Name}

theorem head?_joined_of_names (ht : ∀ e ∈ t, IsName e) :
    (joined t).head? = t.head?.bind List.head? := by
  cases t with
  | nil => rfl
  | cons e t =>
      by_cases h : t = []
      · subst h
        rw [joined_singleton]
        rfl
      · rw [joined_cons h, List.head?_append_of_ne_nil _ (ht e List.mem_cons_self).ne_nil]
        rfl

theorem joined_concat (h : t ≠ []) (e : Name) : joined (t ++ [e]) = joined t ++ '/' :: e := by
  rw [joined_append h (List.cons_ne_nil e []), joined_singleton]

theorem joined_ne_nil_of_names (ht : ∀ e ∈ t, IsName e) (h : t ≠ []) : joined t ≠ [] := by
  cases t with
  | nil => exact absurd rfl h
  | cons e t =>
      have he := ht e List.mem_cons_self
      by_cases h : t = []
      · subst h
        rw [joined_singleton]
        exact he.ne_nil
      · rw [joined_cons h]
        simp

theorem getLast?_joined_concat (e : Name) (he : IsName e) :
    (joined (t ++ [e])).getLast? = e.getLast? := by
  by_cases h : t = []
  · subst h
    rw [List.nil_append, joined_singleton]
  · rw [joined_concat h, List.getLast?_append_cons, List.getLast?_cons_of_ne_nil he.ne_nil]

theorem getLast?_joined_of_names (ht : ∀ e ∈ t, IsName e) : (joined t).getLast? ≠ some '/' := by
  rcases List.eq_nil_or_concat' t with rfl | ⟨t, e, rfl⟩
  · simp [joined]
  · have he := ht e (List.mem_append_right _ List.mem_cons_self)
    rw [getLast?_joined_concat e he]
    exact he.last_ne

theorem IsName.settled {e : Name} (h : IsName e) (hhead : e.head? ≠ some ' ') : Settled e :=
  ⟨hhead, h.backslash, isChain_of_slash h.slash, fun hl => absurd hl h.last_ne⟩

/-- A name behind a separator. -/
theorem Settled.append_name {s : List Char} {e : Name} (h : Settled s) (hne : s ≠ [])
    (hl : s.getLast? ≠ some '/') (he : IsName e) : Settled (s ++ '/' :: e) where
  head_ne := by
    rw [List.head?_append_of_ne_nil _ hne]
    exact h.head_ne
  backslash hmem := by
    rcases List.mem_append.mp hmem with hmem | hmem
    · exact h.backslash hmem
    · rcases List.mem_cons.mp hmem with hmem | hmem
      · exact absurd hmem (by decide)
      · exact he.backslash hmem
  chain := by
    refine List.isChain_append.mpr ⟨h.chain, (isChain_of_slash he.slash).cons ?_, ?_⟩
    · rintro c hc ⟨-, rfl⟩
      exact he.head_ne hc
    · rintro c hc - - ⟨rfl, -⟩
      exact hl hc
  slash hlast := by
    rw [List.getLast?_append_cons, List.getLast?_cons_of_ne_nil he.ne_nil] at hlast
    exact absurd hlast he.last_ne

/-- The string of the names is that of a path, but for a space at its end. -/
theorem settled_joined (ht : ∀ e ∈ t, IsName e) (hhead : ∀ e ∈ t.head?, e.head? ≠ some ' ') :
    Settled (joined t) := by
  induction t using List.reverseRecOn with
  | nil => exact ⟨by simp [joined], by simp [joined], .nil, by simp [joined]⟩
  | append_singleton t e ih =>
      have he := ht e (List.mem_append_right _ List.mem_cons_self)
      have ht' : ∀ f ∈ t, IsName f := fun f hf => ht f (List.mem_append_left _ hf)
      by_cases h : t = []
      · subst h
        rw [List.nil_append, joined_singleton]
        exact he.settled (hhead e rfl)
      · rw [List.head?_append_of_ne_nil _ h] at hhead
        rw [joined_concat h]
        exact (ih ht' hhead).append_name (joined_ne_nil_of_names ht' h)
          (getLast?_joined_of_names ht') he

end Joined

namespace FsPath

/-! ### Nothing but spaces -/

theorem trimSpaces_eq_nil {s : List Char} : trimSpaces s = [] ↔ ∀ c ∈ s, c = ' ' := by
  constructor
  · intro h c hc
    rw [trimSpaces, List.reverse_eq_nil_iff, List.dropWhile_eq_nil_iff] at h
    have hall : ∀ d ∈ s.dropWhile (· = ' '), d = ' ' := fun d hd =>
      of_decide_eq_true (h d (List.mem_reverse.mpr hd))
    rw [← List.takeWhile_append_dropWhile (p := (· = ' ')) (l := s)] at hc
    rcases List.mem_append.mp hc with hc | hc
    · have := List.mem_takeWhile_imp hc
      exact of_decide_eq_true this
    · exact hall c hc
  · intro h
    have hnil : s.dropWhile (· = ' ') = [] :=
      List.dropWhile_eq_nil_iff.mpr fun c hc => decide_eq_true (h c hc)
    rw [trimSpaces, hnil]
    rfl

theorem removeTrailingSlash_eq_nil {s : List Char} : removeTrailingSlash s = [] ↔ s = [] := by
  rw [removeTrailingSlash]
  split
  · next h =>
    refine iff_of_false (fun hnil => ?_) fun hnil => ?_
    · have := congrArg List.length hnil
      rw [List.length_dropLast, List.length_nil] at this
      omega
    · rw [hnil] at h
      exact absurd h.1 (by decide)
  · exact Iff.rfl

theorem ofString_eq_empty_iff {s : List Char} : ofString s = empty ↔ ∀ c ∈ s, c = ' ' := by
  rw [← trimSpaces_eq_nil, ← List.map_eq_nil_iff (f := toSlash), ← removeDoubleSlashes_eq_nil,
    ← removeTrailingSlash_eq_nil]
  exact ⟨fun h => congrArg path h, fun h => ext h⟩

/-- What is appended goes behind the path. -/
theorem prefix_appended {q : FsPath} (hq : q.path ≠ []) (name : List Char) :
    q.path <+: q.appended name := by
  simp only [appended, if_neg hq]
  split
  · exact List.prefix_refl _
  · split
    · exact List.prefix_append _ _
    · exact List.prefix_append _ _

theorem appendInternal_ne_empty {q : FsPath} (hq : q ≠ empty) (name : List Char) :
    q.appendInternal name ≠ empty := by
  have hne : q.path ≠ [] := fun h => hq (ext h)
  obtain ⟨c, s, hc⟩ := List.exists_cons_of_ne_nil hne
  obtain ⟨w, hw⟩ := prefix_appended hne name
  rw [appendInternal_eq, ne_eq, ofString_eq_empty_iff, ← hw, hc]
  -- the first character of a path is no space
  intro h
  have hhead := q.settled.head_ne
  rw [hc] at hhead
  exact hhead (congrArg some (h c List.mem_cons_self))

/-! ### The names that are left -/

section Left
variable {t : List Name}

theorem foldl_concat (q : FsPath) (t : List Name) (e : Name) :
    (t ++ [e]).foldl appendInternal q = (t.foldl appendInternal q).appendInternal e := by
  rw [List.foldl_append]
  rfl

theorem appended_empty {e : Name} (he : IsName e) : empty.appended e = e := by
  simp only [appended, stripSlashes_eq he.head_ne he.last_ne, if_neg he.ne_nil]
  rfl

theorem length_foldl_le (ht : ∀ e ∈ t, IsName e) :
    (t.foldl appendInternal empty).path.length ≤ (joined t).length := by
  induction t using List.reverseRecOn with
  | nil => exact Nat.le_refl _
  | append_singleton t e ih =>
      have he := ht e (List.mem_append_right _ List.mem_cons_self)
      have ih := ih fun f hf => ht f (List.mem_append_left _ hf)
      rw [foldl_concat, appendInternal_eq, ofString_path]
      refine (length_makePreferredPathString_le _).trans ?_
      by_cases h : t = []
      · subst h
        rw [List.foldl_nil, appended_empty he, List.nil_append, joined_singleton]
      · rw [joined_length_concat h]
        exact (length_appended_le _ e).trans (by omega)

/-- Behind a path that begins with no separator. -/
theorem appended_of_name {q : FsPath} {e : Name} (he : IsName e) (hq : q.path ≠ [])
    (hl : q.path.getLast? ≠ some '/') : q.appended e = q.path ++ '/' :: e := by
  rw [appended_eq he.slash he.ne_nil hq, if_neg hl]

/-- The names are put together as they are exactly when nothing is taken off them. -/
theorem foldl_path_iff (ht : ∀ e ∈ t, IsName e) :
    (Tight t → (t.foldl appendInternal empty).path = joined t) ∧
      ((joined t).length ≤ (t.foldl appendInternal empty).path.length → Tight t) := by
  induction t using List.reverseRecOn with
  | nil => exact ⟨fun _ => rfl, fun _ => ⟨by simp, by simp⟩⟩
  | append_singleton t e ih =>
      have he := ht e (List.mem_append_right _ List.mem_cons_self)
      have ht' : ∀ f ∈ t, IsName f := fun f hf => ht f (List.mem_append_left _ hf)
      obtain ⟨ih₁, ih₂⟩ := ih ht'
      rw [foldl_concat, appendInternal_eq, ofString_path]
      by_cases h : t = []
      · subst h
        rw [List.foldl_nil, appended_empty he, List.nil_append, joined_singleton, tight_singleton]
        refine ⟨fun ⟨hhead, hlast⟩ => ?_, ends_of_length_le⟩
        exact makePreferredPathString_eq ((he.settled hhead).preferred hlast)
      · rw [tight_concat h]
        constructor
        · rintro ⟨htight, hlast⟩
          have hpath := ih₁ htight
          have happended : (t.foldl appendInternal empty).appended e = joined (t ++ [e]) := by
            rw [appended_of_name he (hpath ▸ joined_ne_nil_of_names ht' h)
              (hpath ▸ getLast?_joined_of_names ht'), hpath, joined_concat h]
          rw [happended]
          refine makePreferredPathString_eq ((settled_joined ht ?_).preferred ?_)
          · rw [List.head?_append_of_ne_nil _ h]
            exact htight.head
          · rw [getLast?_joined_concat e he]
            exact hlast
        · intro hlength
          have h₁ := length_makePreferredPathString_le ((t.foldl appendInternal empty).appended e)
          have h₂ := length_appended_le (t.foldl appendInternal empty) e
          have h₃ := length_foldl_le ht'
          rw [joined_length_concat h] at hlength
          have htight := ih₂ (by omega)
          refine ⟨htight, fun hspace => ?_⟩
          have hends := (ends_of_length_le (s := (t.foldl appendInternal empty).appended e)
            (by omega)).2
          have hpath := ih₁ htight
          rw [appended_of_name he (hpath ▸ joined_ne_nil_of_names ht' h)
            (hpath ▸ getLast?_joined_of_names ht'), List.getLast?_append_cons,
            List.getLast?_cons_of_ne_nil he.ne_nil] at hends
          exact hends hspace

/-- Nothing is put together exactly when the names are nothing but spaces. -/
theorem foldl_eq_empty_iff (ht : ∀ e ∈ t, IsName e) :
    t.foldl appendInternal empty = empty ↔ ∀ e ∈ t, ∀ c ∈ e, c = ' ' := by
  induction t using List.reverseRecOn with
  | nil => simp
  | append_singleton t e ih =>
      have he := ht e (List.mem_append_right _ List.mem_cons_self)
      have ih := ih fun f hf => ht f (List.mem_append_left _ hf)
      rw [foldl_concat, List.forall_mem_append, List.forall_mem_singleton, ← ih]
      by_cases hq : t.foldl appendInternal empty = empty
      · rw [hq, appendInternal_eq, appended_empty he, and_iff_right rfl]
        exact ofString_eq_empty_iff
      · exact iff_of_false (appendInternal_ne_empty hq e) fun h => hq h.1

end Left

/-! ### The elements of a path -/

/-- The names on a path: no empty elements. -/
def names (p : FsPath) : List Name := p.splitElements.filter (· ≠ [])

section Elements
variable {p : FsPath}

theorem mem_joined {t : List Name} {e : Name} {c : Char} (he : e ∈ t) (hc : c ∈ e) :
    c ∈ joined t := by
  induction t with
  | nil => cases he
  | cons f t ih =>
      by_cases h : t = []
      · subst h
        rw [joined_singleton]
        exact List.mem_singleton.mp he ▸ hc
      · rw [joined_cons h]
        rcases List.mem_cons.mp he with rfl | he
        · exact List.mem_append_left _ hc
        · exact List.mem_append_right _ (List.mem_cons_of_mem _ (ih he))

theorem isName_of_mem_names {e : Name} (h : e ∈ p.names) : IsName e := by
  obtain ⟨hmem, hne⟩ := List.mem_filter.mp h
  have hsplit : e ∈ p.path.splitOn '/' := by
    rw [splitElements] at hmem
    split at hmem
    · cases hmem
    · exact hmem
  refine ⟨of_decide_eq_true hne, slash_notMem_splitOn _ e hsplit, fun hb => ?_⟩
  apply p.settled.backslash
  rw [← intercalate_splitElements p]
  exact mem_joined hmem hb

theorem nil_notMem_of_relative (h : p.isAbsolute = false) : [] ∉ p.splitElements := by
  have hhead : p.path.head? ≠ some '/' := of_decide_eq_false h
  rw [splitElements]
  split
  · exact List.not_mem_nil
  · next hne =>
    refine (nil_notMem_splitOn p.settled.chain (fun hl => hhead ?_) hne).2 hhead
    rw [p.settled.slash hl]
    rfl

theorem splitElements_of_relative (h : p.isAbsolute = false) : p.splitElements = p.names := by
  refine (List.filter_eq_self.mpr fun e he => decide_eq_true ?_).symm
  rintro rfl
  exact nil_notMem_of_relative h he

theorem splitElements_of_absolute (h : p.isAbsolute = true) (hroot : p ≠ root) :
    p.splitElements = [] :: p.names := by
  obtain ⟨t, ht⟩ := List.head?_eq_some_iff.mp (isAbsolute_iff.mp h)
  have hne : p.path ≠ [] := by
    intro hnil
    rw [isAbsolute, hnil] at h
    cases h
  have htail : [] ∉ t := by
    have := (nil_notMem_splitOn p.settled.chain (fun hl => hroot (ext (p.settled.slash hl))) hne).1
    rw [splitElements, if_neg hne] at ht
    rwa [ht] at this
  rw [names, ht, List.filter_cons_of_neg (by simp), List.filter_eq_self.mpr]
  intro e he
  refine decide_eq_true ?_
  rintro rfl
  exact htail he

theorem names_root : root.names = [] := by decide

theorem names_eq_nil (h : p.names = []) : p = empty ∨ p = root := by
  by_cases hroot : p = root
  · exact .inr hroot
  refine .inl (splitElements_eq_nil.mp ?_)
  cases ha : p.isAbsolute with
  | false => rw [splitElements_of_relative ha, h]
  | true =>
      have := splitElements_of_absolute ha hroot
      rw [h] at this
      exact absurd this (splitElements_ne_singleton p)

end Elements

/-! ### What is left of the elements -/

/-- What `getRelativePath` makes of the elements of two paths. -/
def relativePath (elements baseElements : List Name) : FsPath :=
  match relativeElements elements baseElements with
  | none          => empty
  | some elements => elements.foldl appendInternal empty

theorem getRelativePath_eq (p base : FsPath) :
    p.getRelativePath base = relativePath p.splitElements base.splitElements := rfl

theorem relativePath_append (b t : List Name) :
    relativePath (b ++ t) b = t.foldl appendInternal empty := by
  rw [relativePath, relativeElements_append]

theorem relativePath_of_not_prefix_names {elements b : List Name} (h : ¬ b <+: elements) :
    relativePath elements b = empty := by
  induction elements generalizing b with
  | nil =>
      cases b with
      | nil => exact absurd (List.prefix_refl _) h
      | cons e b => rfl
  | cons f elements ih =>
      cases b with
      | nil => exact absurd (List.nil_prefix) h
      | cons e b =>
          by_cases he : f = e
          · subst he
            have := ih fun hb => h (List.cons_prefix_cons.mpr ⟨rfl, hb⟩)
            rwa [relativePath, relativeElements, if_pos rfl]
          · rw [relativePath, relativeElements, if_neg he]

section Below
variable {p base : FsPath} {t : List Name}

/-- Both are absolute, or both are relative. -/
def SameKind (p base : FsPath) : Prop :=
  p.isAbsolute = true ∧ base.isAbsolute = true ∨ p.isRelative = true ∧ base.isRelative = true

theorem not_isAbsolute (h : p.isRelative = true) : p.isAbsolute = false := by
  rw [isRelative, Bool.and_eq_true, Bool.not_eq_true'] at h
  simpa using h.2

theorem ne_empty_of_sameKind (h : SameKind p base) : base ≠ empty := by
  rintro rfl
  rcases h with ⟨-, h⟩ | ⟨-, h⟩
  · cases h
  · cases h

/-- The names that are left are the elements that are left, unless the base is the root. -/
theorem splitElements_append (hk : SameKind p base) (hroot : base ≠ root)
    (h : p.names = base.names ++ t) : p.splitElements = base.splitElements ++ t := by
  rcases hk with ⟨hp, hb⟩ | ⟨hp, hb⟩
  · have hne : p ≠ root := by
      rintro rfl
      have hnil := List.append_eq_nil_iff.mp (h.symm.trans names_root)
      rcases names_eq_nil hnil.1 with rfl | rfl
      · cases hb
      · exact hroot rfl
    rw [splitElements_of_absolute hp hne, splitElements_of_absolute hb hroot, h]
    rfl
  · rw [splitElements_of_relative (not_isAbsolute hp),
      splitElements_of_relative (not_isAbsolute hb), h]

theorem prefix_names (h : base.splitElements <+: p.splitElements) : base.names <+: p.names :=
  h.filter _

theorem path_append (h : p.splitElements = base.splitElements ++ t) (hb : base ≠ empty)
    (ht : t ≠ []) : p.path = base.path ++ '/' :: joined t := by
  have hne : base.splitElements ≠ [] := fun hnil => hb (splitElements_eq_nil.mp hnil)
  rw [← intercalate_splitElements p, ← intercalate_splitElements base, h]
  exact joined_append hne ht

/-- The base and the names below it. -/
theorem recombined_iff (hb : base ≠ empty) (hroot : base ≠ root)
    (h : p.splitElements = base.splitElements ++ t) (ht : ∀ e ∈ t, IsName e) (hne : t ≠ []) :
    base.div (t.foldl appendInternal empty) = p ↔
      base.path.getLast? ≠ some ' ' ∧ Tight t := by
  have hpath := path_append h hb hne
  have hbne : base.path ≠ [] := fun hnil => hb (ext hnil)
  have hbl : base.path.getLast? ≠ some '/' := fun hl => hroot (ext (base.settled.slash hl))
  change base.operatorDiv _ = p ↔ _
  constructor
  · intro hq
    have h₁ := length_operatorDiv_le base (t.foldl appendInternal empty).path
    have h₂ := length_appended_le base.copy (t.foldl appendInternal empty).path
    have h₃ := length_foldl_le ht
    have h₄ : base.copy.path.length ≤ base.path.length :=
      length_makePreferredPathString_le base.path
    have h₅ : base.copy.path = makePreferredPathString base.path := rfl
    rw [hq, hpath, List.length_append, List.length_cons] at h₁
    refine ⟨(ends_of_length_le ?_).2, (foldl_path_iff ht).2 (by omega)⟩
    rw [← h₅]
    omega
  · rintro ⟨hlast, htight⟩
    have hj := joined_ne_nil_of_names ht hne
    have hjh : (joined t).head? ≠ some '/' := by
      rw [head?_joined_of_names ht]
      intro hh
      obtain ⟨e, he, hslash⟩ := Option.bind_eq_some_iff.mp hh
      exact (ht e (List.mem_of_head? he)).head_ne hslash
    have happended : base.copy.appended (t.foldl appendInternal empty).path = p.path := by
      rw [copy_eq_iff.mpr hlast, (foldl_path_iff ht).1 htight, hpath]
      simp only [appended, stripSlashes_eq hjh (getLast?_joined_of_names ht), if_neg hj,
        if_neg hbne, if_neg hbl]
    rw [operatorDiv_eq_iff happended, hpath, List.getLast?_append_cons,
      List.getLast?_cons_of_ne_nil hj]
    obtain ⟨u, e, rfl⟩ := List.eq_nil_or_concat' t |>.resolve_left hne
    rw [getLast?_joined_concat e (ht e (List.mem_append_right _ List.mem_cons_self))]
    exact htight.last e (List.mem_append_right _ List.mem_cons_self)

/-- The path itself: its copies are made on the way. -/
theorem recombined_self_iff : p.div empty = p ↔ p.path.getLast? ≠ some ' ' := by
  change p.operatorDiv [] = p ↔ _
  constructor
  · intro hq
    have h₁ := length_operatorDiv_le p []
    have happended : p.copy.appended [] = p.copy.path := rfl
    rw [hq, happended, copy, ofString_path] at h₁
    exact (ends_of_length_le h₁).2
  · intro hlast
    have happended : p.copy.appended [] = p.path := congrArg path (copy_eq_iff.mpr hlast)
    exact (operatorDiv_eq_iff happended).mpr hlast

/-- A relative path and an absolute one differ in their first elements. -/
theorem getRelativePath_of_mixed (hp : p.isRelative = true) (hb : base.isAbsolute = true) :
    p.getRelativePath base = empty := by
  refine relativePath_of_not_prefix_names fun hpre => ?_
  obtain ⟨b, hb⟩ := List.head?_eq_some_iff.mp (isAbsolute_iff.mp hb)
  rw [hb] at hpre
  exact nil_notMem_of_relative (not_isAbsolute hp) (hpre.subset List.mem_cons_self)

end Below

/-! ### The law -/

/-- The path relative to the base: below the base and at it, it leads back to the path, and
elsewhere it is empty.  A relative path below an absolute base is taken as if the base had no
leading separator. -/
structure RelativeLaw (p base : FsPath) : Prop where
  recombined : SameKind p base → base.names <+: p.names →
    (base.div (p.getRelativePath base)).operatorEq p = true
  elsewhere : SameKind p base → ¬ base.names <+: p.names → p.getRelativePath base = empty
  mixed : p.isRelative = true → base.isAbsolute = true →
    p.getRelativePath base = relativePath p.splitElements base.names

/-- The names of the path below the base. -/
def namesBelow (p base : FsPath) : List Name := p.names.drop base.names.length

/-- When the base is above the path and is not the root, no space stands at the end of the base,
behind the separator below it, before another separator, or at the end.  Under an absolute base a
relative path has nothing but spaces. -/
structure Relatable (p base : FsPath) : Prop where
  sameKind : SameKind p base → base.names <+: p.names →
    (base = root → p = root) ∧ base.path.getLast? ≠ some ' ' ∧ Tight (p.namesBelow base)
  mixed : p.isRelative = true → base.isAbsolute = true → base.names <+: p.names →
    ∀ e ∈ p.namesBelow base, ∀ c ∈ e, c = ' '

theorem recombined_below_iff {p base : FsPath} (hk : SameKind p base)
    (h : base.names <+: p.names) : base.div (p.getRelativePath base) = p ↔
      (base = root → p = root) ∧ base.path.getLast? ≠ some ' ' ∧ Tight (p.namesBelow base) := by
  obtain ⟨t, ht⟩ := h
  have hbelow : p.namesBelow base = t := by rw [namesBelow, ← ht, List.drop_left]
  have hnames : ∀ e ∈ t, IsName e := fun e he =>
    isName_of_mem_names (ht ▸ List.mem_append_right _ he)
  rw [hbelow]
  by_cases hroot : base = root
  · subst hroot
    by_cases hp : p = root
    · subst hp
      have hnil : t = [] := (List.append_eq_nil_iff.mp (ht.trans names_root)).2
      subst hnil
      exact iff_of_true (by decide) ⟨fun _ => rfl, by decide, by decide⟩
    · refine iff_of_false (fun hq => hp ?_) fun h => hp (h.1 rfl)
      have habsolute : p.isAbsolute = true := by
        rcases hk with h | h
        · exact h.1
        · cases h.2
      have hempty : p.getRelativePath root = empty := by
        refine relativePath_of_not_prefix_names fun hpre => ?_
        rw [splitElements_of_absolute habsolute hp, splitElements_root] at hpre
        obtain ⟨-, hmem⟩ := List.cons_prefix_cons.mp hpre
        exact (isName_of_mem_names (hmem.subset List.mem_cons_self)).ne_nil rfl
      rw [hempty] at hq
      exact hq.symm.trans (by decide)
  · have hsplit := splitElements_append hk hroot ht.symm
    have hrelative : p.getRelativePath base = t.foldl appendInternal empty := by
      rw [getRelativePath_eq, hsplit, relativePath_append]
    rw [hrelative, and_iff_right fun h => absurd h hroot]
    by_cases hnil : t = []
    · subst hnil
      rw [List.append_nil] at hsplit
      have hp := splitElements_inj hsplit
      subst hp
      rw [List.foldl_nil, recombined_self_iff, and_iff_left (by decide)]
    · exact recombined_iff (ne_empty_of_sameKind hk) hroot hsplit hnames hnil

theorem mixed_iff {p base : FsPath} (hp : p.isRelative = true) (hb : base.isAbsolute = true) :
    p.getRelativePath base = relativePath p.splitElements base.names ↔
      (base.names <+: p.names → ∀ e ∈ p.namesBelow base, ∀ c ∈ e, c = ' ') := by
  rw [getRelativePath_of_mixed hp hb, splitElements_of_relative (not_isAbsolute hp), eq_comm]
  by_cases h : base.names <+: p.names
  · obtain ⟨t, ht⟩ := h
    have hbelow : p.namesBelow base = t := by rw [namesBelow, ← ht, List.drop_left]
    have hnames : ∀ e ∈ t, IsName e := fun e he =>
      isName_of_mem_names (ht ▸ List.mem_append_right _ he)
    rw [hbelow, ← ht, relativePath_append, foldl_eq_empty_iff hnames]
    exact (imp_iff_right (List.prefix_append _ _)).symm
  · exact iff_of_true (relativePath_of_not_prefix_names h) fun h' => absurd h' h

/-- **Relative paths.**  The relative path leads from the base to the path, and is empty elsewhere,
exactly for these. -/
theorem relative_iff (p base : FsPath) : RelativeLaw p base ↔ Relatable p base := by
  constructor
  · rintro ⟨hrecombined, -, hmixed⟩
    exact ⟨fun hk h => (recombined_below_iff hk h).mp (operatorEq_iff.mp (hrecombined hk h)),
      fun hp hb => (mixed_iff hp hb).mp (hmixed hp hb)⟩
  · rintro ⟨hsame, hmixed⟩
    refine ⟨fun hk h => operatorEq_iff.mpr ((recombined_below_iff hk h).mpr (hsame hk h)),
      fun hk h => ?_, fun hp hb => (mixed_iff hp hb).mpr (hmixed hp hb)⟩
    exact relativePath_of_not_prefix_names fun hpre => h (prefix_names hpre)

/-- The root is above every absolute path, and has two empty elements.  The first element of an
absolute path is empty, and the relative path has none. -/
theorem relative_root :
    ¬ RelativeLaw (ofString ['/', 'a']) root ∧
      ¬ RelativeLaw (ofString ['a', '/', 'b']) (ofString ['/', 'a']) := by
  constructor
  · rintro ⟨h, -, -⟩
    have heq := operatorEq_iff.mp (h (.inl (by decide)) (by decide))
    revert heq
    decide
  · rintro ⟨-, -, h⟩
    have heq := h (by decide) (by decide)
    revert heq
    decide

end FsPath

end MyEngine.Io
