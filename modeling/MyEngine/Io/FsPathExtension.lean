import MyEngine.Io.FsPathParts

/-!
# Io — FsPathExtension

`fs_path.cpp`: `replace_extension` looks for the last dot and the last separator of the whole
string, `getStem` and `getExtension` for the last dot of the name.

* `replaceExtension_path`: in every case the text is put behind the name without its last dot and
  what follows it, a dot between them.
* `replace_extension_iff`: which names and which texts give the path with that extension.
-/

namespace MyEngine.Io

open Support

/-! ### Spaces at the end -/

theorem dropWhile_replicate_space (n : Nat) (s : List Char) :
    (List.replicate n ' ' ++ s).dropWhile (· = ' ') = s.dropWhile (· = ' ') := by
  induction n with
  | zero => rfl
  | succ n ih => exact ih

/-- Spaces behind a preferred string go. -/
theorem Preferred.makePreferredPathString_append {s : List Char} (h : Preferred s) (hne : s ≠ [])
    (n : Nat) : makePreferredPathString (s ++ List.replicate n ' ') = s := by
  have hhead : (s ++ List.replicate n ' ').head? ≠ some ' ' := by
    rw [List.head?_append_of_ne_nil _ hne]
    exact h.head_ne
  have htrim : trimSpaces (s ++ List.replicate n ' ') = trimSpaces s := by
    rw [trimSpaces, trimSpaces, dropWhile_space hhead, dropWhile_space h.head_ne,
      List.reverse_append, List.reverse_replicate, dropWhile_replicate_space]
  rw [makePreferredPathString_passes, htrim, ← makePreferredPathString_passes,
    makePreferredPathString_eq h]

theorem trimSpaces_subset {s : List Char} {c : Char} (h : c ∈ trimSpaces s) : c ∈ s := by
  rw [trimSpaces, List.mem_reverse] at h
  have hmem := (List.dropWhile_sublist _).subset h
  rw [List.mem_reverse] at hmem
  exact (List.dropWhile_sublist _).subset hmem

/-- Without separators only the spaces at both ends go. -/
theorem makePreferredPathString_of_notMem {s : List Char} (hslash : '/' ∉ s) (hback : '\\' ∉ s) :
    makePreferredPathString s = trimSpaces s := by
  have hmem : ∀ c ∈ trimSpaces s, c ∈ s := fun c hc => trimSpaces_subset hc
  have hmap : (trimSpaces s).map toSlash = trimSpaces s := by
    refine (List.map_congr_left fun c hc => if_neg ?_).trans (List.map_id _)
    rintro rfl
    exact hback (hmem _ hc)
  have hchain : (trimSpaces s).IsChain fun a b => ¬ (a = '/' ∧ b = '/') := by
    refine List.Pairwise.isChain (List.pairwise_iff_forall_sublist.mpr fun {a b} hab => ?_)
    rintro ⟨rfl, -⟩
    exact hslash (hmem _ (hab.subset List.mem_cons_self))
  rw [makePreferredPathString_passes, hmap, removeDoubleSlashes_eq hchain, removeTrailingSlash,
    if_neg fun h => hslash (hmem _ (List.mem_of_getLast? h.2))]

namespace FsPath

/-! ### The code -/

/-- The string as the formatting of a `const char*` sees it. -/
def getCStr (p : FsPath) : List Char := p.path.takeWhile (· ≠ '\x00')

/-- `replace_extension`.  `npos` is the largest index: every separator is before a missing dot. -/
def replaceExtension (p replacement : FsPath) : FsPath :=
  let separatorIndex := findLast '/' p.path
  let dotIndex := findLast '.' p.path
  if ∀ separator ∈ separatorIndex, ∀ dot ∈ dotIndex, separator < dot then
    ofString (p.path.take (dotIndex.getD p.path.length) ++ '.' :: replacement.getCStr)
  else
    ofString (p.path ++ '.' :: replacement.getCStr)

/-! ### Directory and name -/

/-- What stands before the name: nothing, or a string that ends in a separator. -/
def IsDirectory (d : List Char) : Prop := d = [] ∨ ∃ u, d = u ++ ['/']

section Directory
variable {p q : FsPath} {d : List Char} {v w : Name}

theorem exists_directory (p : FsPath) :
    ∃ d, IsDirectory d ∧ p.path = d ++ p.getName ∧ '/' ∉ p.getName := by
  rcases exists_last '/' p.path with hnot | ⟨u, v, hp, hv⟩
  · rw [getName_of_notMem hnot]
    exact ⟨[], .inl rfl, rfl, hnot⟩
  · rw [getName_of_slash hp hv]
    exact ⟨u ++ ['/'], .inr ⟨u, rfl⟩, by simpa using hp, hv⟩

theorem getName_of_directory (hd : IsDirectory d) (hp : p.path = d ++ v) (hv : '/' ∉ v) :
    p.getName = v := by
  rcases hd with rfl | ⟨u, rfl⟩
  · rw [List.nil_append] at hp
    exact (getName_of_notMem (hp ▸ hv)).trans hp
  · exact getName_of_slash (by simpa using hp) hv

/-- The parent is that of the directory. -/
theorem getParentPath_congr (hd : IsDirectory d) (hp : p.path = d ++ v) (hq : q.path = d ++ w)
    (hv : '/' ∉ v) (hw : '/' ∉ w) : p.getParentPath = q.getParentPath := by
  have hnone : ∀ {r : FsPath}, '/' ∉ r.path → r.getParentPath = empty := by
    intro r hr
    rw [getParentPath, findLast_of_notMem hr]
    exact ite_self _
  rcases hd with rfl | ⟨u, rfl⟩
  · rw [List.nil_append] at hp hq
    rw [hnone (hp ▸ hv), hnone (hq ▸ hw)]
  · rw [getParentPath_of_slash (by simpa using hp) hv,
      getParentPath_of_slash (by simpa using hq) hw]

end Directory

/-- The name up to its last dot. -/
def beforeDot (name : Name) : Name :=
  match findLast '.' name with
  | none   => name
  | some k => name.take k

theorem beforeDot_of_dot (a : Name) {b : Name} (hb : '.' ∉ b) : beforeDot (a ++ '.' :: b) = a := by
  rw [beforeDot, findLast_append_cons a hb]
  exact List.take_left

theorem beforeDot_of_notMem {v : Name} (hv : '.' ∉ v) : beforeDot v = v := by
  rw [beforeDot, findLast_of_notMem hv]

theorem prefix_beforeDot (v : Name) : beforeDot v <+: v := by
  rw [beforeDot]
  split
  · exact List.prefix_refl v
  · exact List.take_prefix _ v

/-- The last dot of the string is the one of the name, if it has one, and else it is before the last
separator. -/
theorem replaceExtension_eq {p : FsPath} {d : List Char} {v : Name} (hd : IsDirectory d)
    (hp : p.path = d ++ v) (hv : '/' ∉ v) (replacement : FsPath) :
    p.replaceExtension replacement =
      ofString (d ++ beforeDot v ++ '.' :: replacement.getCStr) := by
  have hseparator : findLast '/' p.path = if d = [] then none else some (d.length - 1) := by
    rcases hd with rfl | ⟨u, rfl⟩
    · rw [hp]
      exact findLast_of_notMem hv
    · rw [hp, List.append_assoc, List.singleton_append, findLast_append_cons u hv,
        if_neg (by simp)]
      simp
  rw [replaceExtension, hseparator]
  rcases exists_last '.' v with hnot | ⟨a, b, rfl, hb⟩
  · rw [beforeDot_of_notMem hnot, ← hp]
    rcases exists_last '.' d with hdnot | ⟨a, b, rfl, hb⟩
    · have hdot : findLast '.' p.path = none := by
        rw [hp]
        exact findLast_of_notMem fun h => (List.mem_append.mp h).elim hdnot hnot
      rw [hdot, if_pos (by simp), Option.getD_none, List.take_length]
    · have hdot : findLast '.' p.path = some a.length := by
        rw [hp, List.append_assoc, List.cons_append]
        exact findLast_append_cons a fun h => (List.mem_append.mp h).elim hb hnot
      rw [hdot, if_neg]
      simp
  · have hdot : findLast '.' p.path = some (d ++ a).length := by
      rw [hp, ← List.append_assoc]
      exact findLast_append_cons _ hb
    have hbefore : ∀ separator ∈ (if d = [] then none else some (d.length - 1)),
        ∀ dot ∈ some (d ++ a).length, separator < dot := by
      intro separator hsep dot hdot
      obtain rfl := Option.some.inj hdot
      split at hsep
      · cases hsep
      · next hne =>
        obtain rfl := Option.some.inj hsep
        have := List.length_pos_iff.mpr hne
        rw [List.length_append]
        omega
    rw [hdot, if_pos hbefore, beforeDot_of_dot a hb, hp, Option.getD_some, ← List.append_assoc,
      List.take_left]

/-! ### The text behind the dot -/

/-- An extension: some text without dots and separators. -/
structure IsExtension (e : List Char) : Prop where
  ne_nil : e ≠ []
  dot : '.' ∉ e
  slash : '/' ∉ e

/-- A name that is not one of the two directories. -/
structure Named (p : FsPath) : Prop where
  ne_nil : p.getName ≠ []
  ne_dot : p.getName ≠ ['.']
  ne_dots : p.getName ≠ ['.', '.']

section Text
variable {p : FsPath} {d : List Char} {v : Name} {e r : List Char}

/-- A preferred string, where the text ends in no space. -/
theorem preferred_replaced (hp : p.path = d ++ v) (hr : ∀ c ∈ r, c ≠ '/' ∧ c ≠ '\\')
    (hlast : r.getLast? ≠ some ' ') : Preferred (d ++ beforeDot v ++ '.' :: r) := by
  obtain ⟨w, hw⟩ := prefix_beforeDot v
  have hpath : p.path = d ++ beforeDot v ++ w := by rw [hp, List.append_assoc, hw]
  have hsettled := p.settled
  rw [hpath] at hsettled
  have hslash : '/' ∉ '.' :: r := by
    intro h
    rcases List.mem_cons.mp h with h | h
    · exact absurd h (by decide)
    · exact (hr _ h).1 rfl
  refine ⟨?_, ?_, ?_, ?_, fun hl => ?_⟩
  · by_cases hx : d ++ beforeDot v = []
    · rw [hx]
      simp
    · have := hsettled.head_ne
      rw [List.head?_append_of_ne_nil _ hx] at this ⊢
      exact this
  · rw [List.getLast?_append_cons]
    cases hc : r with
    | nil => simp
    | cons c r' =>
        rw [List.getLast?_cons_cons, ← hc]
        exact hlast
  · intro h
    rcases List.mem_append.mp h with h | h
    · exact hsettled.backslash (List.mem_append_left _ h)
    · rcases List.mem_cons.mp h with h | h
      · exact absurd h (by decide)
      · exact (hr _ h).2 rfl
  · refine List.isChain_append.mpr ⟨(List.isChain_append.mp hsettled.chain).1, ?_, ?_⟩
    · refine List.Pairwise.isChain (List.pairwise_iff_forall_sublist.mpr fun {a b} hab => ?_)
      rintro ⟨rfl, -⟩
      exact hslash (hab.subset List.mem_cons_self)
    · rintro a - b hb ⟨-, rfl⟩
      cases hb
  · rw [List.getLast?_append_cons] at hl
    exact absurd (List.mem_of_getLast? hl) hslash

/-- The string of the path: the spaces at the end of the text go. -/
theorem replaceExtension_path (hd : IsDirectory d) (hp : p.path = d ++ v) (hv : '/' ∉ v)
    {replacement : FsPath} {n : Nat} (hr : ∀ c ∈ r, c ≠ '/' ∧ c ≠ '\\')
    (hlast : r.getLast? ≠ some ' ') (he : replacement.getCStr = r ++ List.replicate n ' ') :
    (p.replaceExtension replacement).path = d ++ (beforeDot v ++ '.' :: r) := by
  have hpreferred := preferred_replaced hp hr hlast
  have hne : d ++ beforeDot v ++ '.' :: r ≠ [] := by simp
  rw [replaceExtension_eq hd hp hv, ofString_path, he, ← List.cons_append, ← List.append_assoc,
    hpreferred.makePreferredPathString_append hne n, List.append_assoc]

/-- A name with a dot that is not its first character, and some text behind it. -/
theorem parts_of_dot {a b : Name} (hp : p.getName = a ++ '.' :: b) (ha : a ≠ []) (hb : '.' ∉ b) :
    (b ≠ [] → p.getStem = a ∧ p.getExtension = '.' :: b) ∧
      (b = [] → p.getExtension = [] ∨ p.getExtension = ['.']) := by
  obtain ⟨n, hn⟩ : ∃ n, a.length = n + 1 :=
    Nat.exists_eq_succ_of_ne_zero (List.length_pos_iff.mpr ha).ne'
  have hfind : findLast '.' (a ++ '.' :: b) = some (n + 1) := by rw [findLast_append_cons a hb, hn]
  have hdrop : (a ++ '.' :: b).drop (n + 1) = '.' :: b := by rw [← hn, List.drop_left]
  have htake : (a ++ '.' :: b).take (n + 1) = a := by rw [← hn, List.take_left]
  constructor
  · rintro hne
    have hlength : 3 ≤ (a ++ '.' :: b).length := by
      have := List.length_pos_iff.mpr hne
      rw [List.length_append, List.length_cons]
      omega
    have hname : ¬ (a ++ '.' :: b = [] ∨ a ++ '.' :: b = ['.'] ∨ a ++ '.' :: b = ['.', '.']) := by
      rintro (h | h | h)
      all_goals
        rw [h] at hlength
        exact absurd hlength (by decide)
    simp only [getStem, getExtension, hp, if_neg hname, hfind]
    exact ⟨htake, hdrop⟩
  · rintro rfl
    simp only [getExtension, hp, hfind, hdrop]
    split
    · exact .inl rfl
    · exact .inr rfl

/-- A name whose last dot is its first character has no extension. -/
theorem getExtension_of_dot {b : Name} (hp : p.getName = '.' :: b) (hb : '.' ∉ b) :
    p.getExtension = [] := by
  have hfind : findLast '.' ('.' :: b) = some 0 := findLast_append_cons [] hb
  simp only [getExtension, hp, hfind]
  exact ite_self _

theorem getStem_eq_beforeDot (hp : p.Named) (hdot : findLast '.' p.getName ≠ some 0) :
    p.getStem = beforeDot p.getName := by
  have hname : ¬ (p.getName = [] ∨ p.getName = ['.'] ∨ p.getName = ['.', '.']) := by
    rintro (h | h | h)
    · exact hp.ne_nil h
    · exact hp.ne_dot h
    · exact hp.ne_dots h
  simp only [getStem, beforeDot, if_neg hname]
  cases hfind : findLast '.' p.getName with
  | none => rfl
  | some k =>
      cases k with
      | zero => exact absurd hfind hdot
      | succ k => rfl

theorem beforeDot_eq_nil (hp : p.Named) :
    beforeDot p.getName = [] ↔ findLast '.' p.getName = some 0 := by
  rcases exists_last '.' p.getName with hnot | ⟨a, b, hname, hb⟩
  · rw [beforeDot_of_notMem hnot, findLast_of_notMem hnot]
    exact iff_of_false hp.ne_nil fun h => by cases h
  · rw [hname, beforeDot_of_dot a hb, findLast_append_cons a hb, Option.some.injEq,
      List.length_eq_zero_iff]

/-- The result has the parent and the stem of the path, and the text behind a dot as its
extension. -/
def ReplacesExtension (p : FsPath) (e : List Char) : Prop :=
  (p.replaceExtension (ofString e)).getParentPath = p.getParentPath ∧
    (p.replaceExtension (ofString e)).getStem = p.getStem ∧
    (p.replaceExtension (ofString e)).getExtension = '.' :: e

instance (p : FsPath) (e : List Char) : Decidable (p.ReplacesExtension e) :=
  inferInstanceAs (Decidable (_ ∧ _))

theorem getName_sublist (p : FsPath) : p.getName.Sublist p.path := by
  rw [getName]
  split
  · exact .refl _
  · exact List.drop_sublist _ _

theorem getExtension_sublist (p : FsPath) : p.getExtension.Sublist p.getName := by
  simp only [getExtension]
  split
  · exact List.nil_sublist _
  · split
    · exact List.nil_sublist _
    · exact List.nil_sublist _
    · exact List.drop_sublist _ _

/-- What is left of a text on its way through the path and the C string. -/
theorem exists_text (he : IsExtension e) (hback : '\\' ∉ e) :
    ∃ r n, (ofString e).getCStr = r ++ List.replicate n ' ' ∧ r.getLast? ≠ some ' ' ∧
      (∀ c ∈ r, c ∈ e) ∧ (r = e ↔ e.head? ≠ some ' ' ∧ e.getLast? ≠ some ' ' ∧ '\x00' ∉ e) := by
  have hpath : (ofString e).path = trimSpaces e := makePreferredPathString_of_notMem he.slash hback
  obtain ⟨r, n, hr, hlast⟩ := exists_append_replicate ' ' (ofString e).getCStr
  have hcstr : (ofString e).getCStr = (trimSpaces e).takeWhile (· ≠ '\x00') := by
    rw [getCStr, hpath]
  have htake := List.takeWhile_prefix (l := trimSpaces e) (· ≠ '\x00')
  have hsub : ∀ c ∈ trimSpaces e, c ∈ e := fun c hc => trimSpaces_subset hc
  refine ⟨r, n, hr, hlast, fun c hc => hsub c (htake.subset ?_), ?_⟩
  · rw [← hcstr, hr]
    exact List.mem_append_left _ hc
  constructor
  · rintro rfl
    -- nothing is lost on any of the ways
    have h₁ := length_trimSpaces r
    have h₂ := htake.length_le
    have h₃ := congrArg List.length (hcstr.symm.trans hr)
    rw [List.length_append, List.length_replicate] at h₃
    obtain ⟨htrim, hends⟩ := trimSpaces_ends (s := r) (by omega)
    refine ⟨hends.1, hends.2, fun hnul => ?_⟩
    have heq := htake.eq_of_length (by omega)
    rw [htrim] at heq
    rw [← heq] at hnul
    have hne := List.mem_takeWhile_imp hnul
    exact absurd hne (by decide)
  · rintro ⟨hhead, hend, hnul⟩
    have htrim : trimSpaces e = e := by
      have hend' : e.reverse.head? ≠ some ' ' := by simpa using hend
      rw [trimSpaces, dropWhile_space hhead, dropWhile_space hend', List.reverse_reverse]
    have hall : (ofString e).getCStr = e := by
      rw [hcstr, htrim]
      refine List.takeWhile_eq_self_iff.mpr fun c hc => decide_eq_true ?_
      rintro rfl
      exact hnul hc
    rw [hall] at hr
    cases n with
    | zero => simpa using hr.symm
    | succ n =>
        rw [List.replicate_succ', ← List.append_assoc] at hr
        rw [hr] at hend
        simp at hend

end Text

/-- **The extension of a path.**  It is replaced exactly when the text is what it is as a path and
as a C string, and the only dot of the name is not its first character. -/
theorem replace_extension_iff {p : FsPath} {e : List Char} (hp : p.Named) (he : IsExtension e) :
    p.ReplacesExtension e ↔ findLast '.' p.getName ≠ some 0 ∧
      e.head? ≠ some ' ' ∧ e.getLast? ≠ some ' ' ∧ '\\' ∉ e ∧ '\x00' ∉ e := by
  by_cases hback : '\\' ∈ e
  · -- no path has a backslash
    refine iff_of_false (fun h => ?_) fun h => h.2.2.2.1 hback
    have hsub := (getExtension_sublist _).trans (getName_sublist (p.replaceExtension (ofString e)))
    rw [h.2.2] at hsub
    exact (settled _).backslash (hsub.subset (List.mem_cons_of_mem _ hback))
  obtain ⟨r, n, hr, hlast, hsub, heq⟩ := exists_text he hback
  obtain ⟨d, hd, hpath, hslash⟩ := p.exists_directory
  have hchars : ∀ c ∈ r, c ≠ '/' ∧ c ≠ '\\' := by
    intro c hc
    constructor
    · rintro rfl
      exact he.slash (hsub _ hc)
    · rintro rfl
      exact hback (hsub _ hc)
  have hpath' := replaceExtension_path hd hpath hslash hchars hlast hr
  have hslash' : '/' ∉ beforeDot p.getName ++ '.' :: r := by
    intro h
    rcases List.mem_append.mp h with h | h
    · exact hslash ((prefix_beforeDot _).subset h)
    · rcases List.mem_cons.mp h with h | h
      · exact absurd h (by decide)
      · exact (hchars _ h).1 rfl
  have hname := getName_of_directory hd hpath' hslash'
  have hparent := getParentPath_congr hd hpath' hpath hslash' hslash
  have hdot : '.' ∉ r := fun h => he.dot (hsub _ h)
  rw [ReplacesExtension, and_iff_right hparent]
  by_cases hnil : beforeDot p.getName = []
  · refine iff_of_false (fun h => ?_) fun h => h.1 ((beforeDot_eq_nil hp).mp hnil)
    rw [hnil] at hname
    rw [getExtension_of_dot hname hdot] at h
    cases h.2
  · have hfirst := mt (beforeDot_eq_nil hp).mpr hnil
    obtain ⟨hsome, hnone⟩ := parts_of_dot hname hnil hdot
    rw [getStem_eq_beforeDot hp hfirst, and_iff_right hfirst]
    by_cases hre : r = e
    · subst hre
      obtain ⟨hhead, hend, hnul⟩ := heq.mp rfl
      exact iff_of_true (hsome he.ne_nil) ⟨hhead, hend, hback, hnul⟩
    · refine iff_of_false (fun h => ?_) fun h => hre (heq.mpr ⟨h.1, h.2.1, h.2.2.2⟩)
      by_cases hrnil : r = []
      · rcases hnone hrnil with hext | hext
        · rw [hext] at h
          cases h.2
        · rw [hext] at h
          exact he.ne_nil (List.cons.inj h.2).2.symm
      · rw [(hsome hrnil).2] at h
        exact hre (List.cons.inj h.2).2

/-- `x/a.b` with `cd`. -/
theorem replace_extension_named :
    (ofString ['x', '/', 'a', '.', 'b']).ReplacesExtension ['c', 'd'] := by
  have hp : (ofString ['x', '/', 'a', '.', 'b']).Named := ⟨by decide, by decide, by decide⟩
  have he : IsExtension ['c', 'd'] := ⟨by decide, by decide, by decide⟩
  exact (replace_extension_iff hp he).mpr (by decide)

/-- The name `.a` is all extension to `replace_extension`, and all stem to `getStem`. -/
theorem replace_extension_dot_file :
    (ofString ['.', 'a']).Named ∧ IsExtension ['b'] ∧
      ¬ (ofString ['.', 'a']).ReplacesExtension ['b'] :=
  ⟨⟨by decide, by decide, by decide⟩, ⟨by decide, by decide, by decide⟩, by decide⟩

end FsPath

end MyEngine.Io
