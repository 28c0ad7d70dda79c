import MyEngine.Io.VirtualFileSystem

/-!
# Io — Exists

`VirtualFileSystemImpl::exists` on a normalized absolute path, after any sequence of mounts.

Mounting splits `"/"` into two empty elements, and the walk from the root has used only one of
them when the name after it is looked up.  So a file system mounted at `"/"` is never asked, and
one mounted at the empty path is asked for the empty path instead: `pathExists_iff`.
-/

namespace MyEngine.Io

variable {ι : Type}

/-- `exists(path, kind)`. -/
def VirtualFileSystemImpl.pathExists (fs : ι → FileSystem) (vfs : VirtualFileSystemImpl ι)
    (path : FsPath) (kind : Option FsEntryKind) : Bool :=
  let (basePath, fsNode) := vfs.findFsNodeForPath path
  -- the virtual path itself can only be a directory
  if basePath.equals path then
    kind = none || kind = some .directory
  else
    match fsNode with
    | none      => false
    | some node =>
        node.hasMounts &&
          node.mountedFs.any fun e => (fs e.fs).pathExists (path.getRelativePath basePath) kind

/-! ### What the mounts say -/

/-- `p = P / r`, element by element. -/
def FsPath.IsJoin (p P r : FsPath) : Prop :=
  r.isRelative = true ∧
    if P = .root then p.splitElements = [] :: r.splitElements
    else p.splitElements = P.splitElements ++ r.splitElements

/-- `p` is an ancestor of `P`, or `P` itself. -/
def FsPath.IsAncestorOrEqual (p P : FsPath) : Prop :=
  if p = .root then P.isAbsolute = true else p.splitElements <+: P.splitElements

/-- The file system of the mount has what is left of `p` below the mount point. -/
def Mount.Provides (fs : ι → FileSystem) (m : Mount ι) (p : FsPath) (kind : FsEntryKind) : Prop :=
  ∃ r, p.IsJoin m.path r ∧ (fs m.fs).pathExists r (some kind) = true

/-- A file is what a mounted file system provides as one; a directory is that too, or a mount
point or an ancestor of one. -/
def ExistsBy (fs : ι → FileSystem) (ms : List (Mount ι)) (p : FsPath) (kind : FsEntryKind) : Prop :=
  kind = .directory ∧ (∃ m ∈ ms, p.IsAncestorOrEqual m.path) ∨ ∃ m ∈ ms, m.Provides fs p kind

/-- Where the code and the mounts agree: the root is the ancestor of a mount point; no file system
mounted at the empty path has the empty path; what a file system mounted at the root has is
there by another mount point too. -/
def Agreed (fs : ι → FileSystem) (ms : List (Mount ι)) (p : FsPath) : Prop :=
  if p = .root then
    ∃ m ∈ ms, m.path.isAbsolute = true
  else
    ∀ kind, (∀ m ∈ ms, m.path = .empty → (fs m.fs).pathExists .empty (some kind) = false) ∧
      ∀ m ∈ ms, m.path = .root → m.Provides fs p kind →
        ExistsBy fs (ms.filter fun m => m.path ≠ .root) p kind

/-! ### A path below the root -/

/-- The file system of a mount point other than the root and the empty path has what is left of
the names below it. -/
def Mount.Serves (fs : ι → FileSystem) (m : Mount ι) (names : List Name) (kind : FsEntryKind) :
    Prop :=
  ∃ u, u ≠ [] ∧ m.key ≠ [] ∧ names = m.key ++ u ∧
    (fs m.fs).pathExists (.relative u) (some kind) = true

section Below
variable {fs : ι → FileSystem} {ms : List (Mount ι)} {t : List Name} {kind : FsEntryKind}

theorem FsPath.isRelative_elements {r : FsPath} (h : r.isRelative = true) :
    r.splitElements ≠ [] ∧ r.splitElements.head? ≠ some [] := by
  simp only [isRelative, Bool.and_eq_true, Bool.not_eq_true'] at h
  refine ⟨fun he => ?_, fun he => ?_⟩
  · rw [splitElements_eq_nil.mp he] at h
    exact absurd h.1 (by decide)
  · rw [isAbsolute_iff.mpr he] at h
    exact absurd h.2 (by decide)

theorem Mount.Serves.key_ne {m : Mount ι} {names : List Name} (h : m.Serves fs names kind) :
    m.key ≠ [] := h.choose_spec.2.1

theorem Mount.Serves.key_prefix {m : Mount ι} {names : List Name} (h : m.Serves fs names kind) :
    m.key <+: names := ⟨h.choose, h.choose_spec.2.2.1.symm⟩

/-- A mount point above the names has an element below the root. -/
theorem Mount.Serves.key {m : Mount ι} (h : m.Serves fs ([] :: t) kind) :
    ∃ b u, m.key = [] :: b ∧ b ≠ [] ∧ u ≠ [] ∧ t = b ++ u ∧
      (fs m.fs).pathExists (.relative u) (some kind) = true := by
  obtain ⟨u, hu, hk, hn, he⟩ := h
  cases hkey : m.key with
  | nil => exact absurd hkey hk
  | cons a b =>
      rw [hkey, List.cons_append] at hn
      obtain ⟨rfl, hb⟩ := List.cons.inj hn
      refine ⟨b, u, rfl, fun h => ?_, hu, hb, he⟩
      subst h
      exact FsPath.splitElements_ne_singleton m.path hkey

theorem Mount.Serves.ne_root {m : Mount ι} (ht : ∀ e ∈ t, Plain e)
    (h : m.Serves fs ([] :: t) kind) : m.path ≠ .root := fun hr => by
  obtain ⟨b, u, hk, -, -, hb, -⟩ := h.key
  rw [Mount.key, hr, FsPath.splitElements_root] at hk
  exact (ht [] (by rw [hb, ← (List.cons.inj hk).2]; simp)).ne_nil rfl

theorem Mount.provides_iff (ht : ∀ e ∈ t, Plain e) (h : t ≠ []) (m : Mount ι) :
    m.Provides fs (.absolute t) kind ↔
      m.path = .root ∧ (fs m.fs).pathExists (.relative t) (some kind) = true ∨
        m.Serves fs ([] :: t) kind := by
  constructor
  · rintro ⟨r, ⟨hr, hj⟩, he⟩
    obtain ⟨hne, hhead⟩ := FsPath.isRelative_elements hr
    rw [FsPath.splitElements_absolute ht h] at hj
    split at hj
    · next hm =>
        have hrt : r = .relative t := FsPath.splitElements_inj <| by
          rw [FsPath.splitElements_relative ht]
          exact (List.cons.inj hj).2.symm
        exact .inl ⟨hm, hrt ▸ he⟩
    · next hm =>
        cases hk : m.path.splitElements with
        | nil =>
            rw [hk] at hj
            exact absurd (by rw [← List.nil_append r.splitElements, ← hj]; rfl) hhead
        | cons a b =>
            rw [hk, List.cons_append] at hj
            have hu : ∀ e ∈ r.splitElements, Plain e := fun e he =>
              ht e ((List.cons.inj hj).2 ▸ List.mem_append_right _ he)
            have hru : r = .relative r.splitElements := FsPath.splitElements_inj
              (FsPath.splitElements_relative hu).symm
            refine .inr ⟨r.splitElements, hne, ?_, ?_, hru ▸ he⟩
            · rw [key, hk]; simp
            · rw [key, hk, hj]; rfl
  · rintro (⟨hm, he⟩ | ⟨u, hu, hk, hn, he⟩)
    · refine ⟨.relative t, ⟨FsPath.relative_isRelative ht h, ?_⟩, he⟩
      rw [if_pos hm, FsPath.splitElements_absolute ht h, FsPath.splitElements_relative ht]
    · have hs : m.Serves fs ([] :: t) kind := ⟨u, hu, hk, hn, he⟩
      obtain ⟨b, -, hkb, -⟩ := hs.key
      have hup : ∀ e ∈ u, Plain e := fun e heu => by
        rw [hkb, List.cons_append] at hn
        exact ht e ((List.cons.inj hn).2 ▸ List.mem_append_right _ heu)
      refine ⟨.relative u, ⟨FsPath.relative_isRelative hup hu, ?_⟩, he⟩
      rw [if_neg (hs.ne_root ht), FsPath.splitElements_absolute ht h,
        FsPath.splitElements_relative hup]
      exact hn

/-- On normalized paths `IsJoin` is `operator/`. -/
theorem FsPath.isJoin_iff_div {p : FsPath} {b u : List Name} (hb : ∀ e ∈ b, Plain e)
    (hu : ∀ e ∈ u, Plain e) (h : u ≠ []) :
    p.IsJoin (absolute b) (relative u) ↔ p = (absolute b).div (relative u) := by
  have hbu : ∀ e ∈ b ++ u, Plain e := fun e he => (List.mem_append.mp he).elim (hb e) (hu e)
  have hne : b ++ u ≠ [] := by simp [h]
  have hj : p.IsJoin (absolute b) (relative u) ↔
      p.splitElements = (absolute (b ++ u)).splitElements := by
    rw [IsJoin, relative_isRelative hu h, splitElements_absolute hbu hne,
      splitElements_relative hu]
    by_cases hbn : b = []
    · subst hbn
      simp [absolute_nil]
    · simp [absolute_eq_root hb hbn, splitElements_absolute hb hbn]
  rw [hj, div_absolute hb hu]
  exact ⟨splitElements_inj, fun h => h ▸ rfl⟩

theorem existsBy_iff (ht : ∀ e ∈ t, Plain e) (h : t ≠ []) :
    ExistsBy fs ms (.absolute t) kind ↔
      kind = .directory ∧ (∃ m ∈ ms, [] :: t <+: m.key) ∨
        (∃ m ∈ ms, m.path = .root ∧
          (fs m.fs).pathExists (.relative t) (some kind) = true) ∨
        ∃ m ∈ ms, m.Serves fs ([] :: t) kind := by
  simp only [ExistsBy, FsPath.IsAncestorOrEqual, FsPath.absolute_eq_root ht h, ↓reduceIte,
    FsPath.splitElements_absolute ht h, Mount.provides_iff ht h, Mount.key, ← exists_or,
    ← and_or_left]

theorem pathExists_of_walk {vfs : VirtualFileSystemImpl ι} {path basePath : FsPath} {n : FsNode ι}
    (hw : vfs.root.walk path.splitElements .root = (basePath, n)) (hne : path ≠ .empty) :
    vfs.pathExists fs path (some kind) = true ↔
      if basePath = path then kind = .directory
      else ∃ e ∈ n.mountedFs,
        (fs e.fs).pathExists (path.getRelativePath basePath) (some kind) = true := by
  have hf : vfs.findFsNodeForPath path =
      if !basePath.equals path && !n.hasMounts then (.empty, none) else (basePath, some n) := by
    rw [VirtualFileSystemImpl.findFsNodeForPath, hw]
  by_cases hb : basePath = path
  · subst hb
    have he : basePath.equals basePath = true := FsPath.equals_iff.mpr rfl
    simp [VirtualFileSystemImpl.pathExists, hf, he]
  · have he : basePath.equals path = false := by
      rw [← Bool.not_eq_true, FsPath.equals_iff]
      exact hb
    have he' : FsPath.empty.equals path = false := by
      rw [← Bool.not_eq_true, FsPath.equals_iff]
      exact hne.symm
    by_cases hm : n.mountedFs = []
    · simp [VirtualFileSystemImpl.pathExists, hf, he, he', FsNode.hasMounts, hm, hb]
    · simp [VirtualFileSystemImpl.pathExists, hf, he, FsNode.hasMounts, hm, hb]

theorem mem_mountedFs {n : FsNode ι} {q : List Name} {r : FsPath}
    (hmf : n.mountedFs = (ms.filter fun m => m.key = q).map Mount.entry) :
    (∃ e ∈ n.mountedFs, (fs e.fs).pathExists r (some kind) = true) ↔
      ∃ m ∈ ms, m.key = q ∧ (fs m.fs).pathExists r (some kind) = true := by
  rw [hmf]
  simp [Mount.entry, and_assoc]

/-- A mount point at or above the names is where the walk along them stops. -/
theorem Table.walk_key {root : FsNode ι} (hm : Table ms root) {names q : List Name}
    (hq : q = [] ∨ ∃ m ∈ ms, q <+: m.key)
    (hp : ∀ m ∈ ms, ∀ p, p <+: m.key → p <+: names → p <+: q) {m : Mount ι} (hmem : m ∈ ms)
    (hk : m.key ≠ []) (hn : m.key <+: names) : m.key = q := by
  have hpre := hp m hmem m.key List.prefix_rfl hn
  rcases hq with rfl | ⟨m₂, hmem₂, hq⟩
  · exact absurd (List.prefix_nil.mp hpre) hk
  · have := hm.antichain hmem hmem₂ (hpre.trans hq)
    exact hpre.eq_of_length_le (this ▸ hq.length_le)

/-- A mount point at the empty path is the only one. -/
theorem Table.path_ne_empty {root : FsNode ι} (hm : Table ms root) {m m' : Mount ι}
    (hmem : m ∈ ms) (hmem' : m' ∈ ms) (hk : m'.key ≠ []) : m.path ≠ .empty := fun he => by
  have h : m.key = [] := FsPath.splitElements_eq_nil.mpr he
  exact hk (h ▸ hm.antichain hmem hmem' (h ▸ List.nil_prefix)).symm

/-- **What the code answers** on a path below the root: a mount point at the root is not asked,
one at the empty path is asked for the empty path. -/
theorem pathExists_iff {vfs : VirtualFileSystemImpl ι} (hm : Table ms vfs.root)
    (ht : ∀ e ∈ t, Plain e) (h : t ≠ []) :
    vfs.pathExists fs (.absolute t) (some kind) = true ↔
      kind = .directory ∧ (∃ m ∈ ms, [] :: t <+: m.key) ∨
        (∃ m ∈ ms, m.path = .empty ∧ (fs m.fs).pathExists .empty (some kind) = true) ∨
        ∃ m ∈ ms, m.Serves fs ([] :: t) kind := by
  obtain ⟨q, t', n, hn, hmf, hw, -, hq, hp⟩ := hm.walk ([] :: t) .root
  have hne : FsPath.absolute t ≠ .empty := fun he => by
    have := congrArg FsPath.splitElements he
    rw [FsPath.splitElements_absolute ht h] at this
    cases this
  have hserve : ∀ m ∈ ms, m.Serves fs ([] :: t) kind → m.key = q := fun m hmem hs =>
    hm.walk_key hq hp hmem hs.key_ne hs.key_prefix
  have hanc : ∀ m ∈ ms, [] :: t <+: m.key → t' = [] := fun m hmem hpre => by
    have := (hp m hmem _ hpre List.prefix_rfl).length_le
    rw [hn, List.length_append] at this
    exact List.length_eq_zero_iff.mp (by omega)
  rw [← FsPath.splitElements_absolute ht h] at hw
  cases q with
  | nil =>
      have hroot : ¬ FsPath.root = .absolute t := (FsPath.absolute_eq_root ht h).symm
      rw [List.foldl_nil] at hw
      rw [pathExists_of_walk hw hne, if_neg hroot, FsPath.getRelativePath_root ht,
        mem_mountedFs hmf]
      simp only [Mount.key, FsPath.splitElements_eq_nil]
      refine ⟨fun he => .inr (.inl he), ?_⟩
      rintro (⟨-, m, hmem, hpre⟩ | he | ⟨m, hmem, hs⟩)
      · rw [hanc m hmem hpre] at hn
        cases hn
      · exact he
      · exact absurd (hserve m hmem hs) hs.key_ne
  | cons x a =>
      rw [List.cons_append] at hn
      obtain ⟨rfl, rfl⟩ := List.cons.inj hn
      obtain ⟨m₂, hmem₂, hq⟩ := hq.resolve_left (List.cons_ne_nil _ _)
      have ha : ∀ e ∈ a, Plain e := fun e he => ht e (List.mem_append_left _ he)
      have ht' : ∀ e ∈ t', Plain e := fun e he => ht e (List.mem_append_right _ he)
      have hempty : ∀ m ∈ ms, m.path ≠ .empty := fun m hmem =>
        hm.path_ne_empty hmem hmem₂ fun hk => by simp [hk] at hq
      rw [FsPath.foldl_root ha] at hw
      rw [pathExists_of_walk hw hne]
      by_cases htn : t' = []
      · subst htn
        rw [List.append_nil, if_pos rfl]
        refine ⟨fun hk => .inl ⟨hk, m₂, hmem₂, hq⟩, ?_⟩
        rintro (⟨hk, -⟩ | ⟨m, hmem, he, -⟩ | ⟨m, hmem, hs⟩)
        · exact hk
        · exact absurd he (hempty m hmem)
        · rw [List.append_nil] at hserve
          obtain ⟨u, hu, -, hnu, -⟩ := id hs
          rw [hserve m hmem hs, List.self_eq_append_right] at hnu
          exact absurd hnu hu
      · have hbne : ¬ FsPath.absolute a = .absolute (a ++ t') := fun he => by
          have := FsPath.absolute_inj ha ht he
          exact htn (List.append_cancel_left (this.symm.trans (List.append_nil a).symm))
        rw [if_neg hbne, mem_mountedFs hmf]
        constructor
        · rintro ⟨m, hmem, hk, he⟩
          have han : a ≠ [] := fun h => FsPath.splitElements_ne_singleton m.path (h ▸ hk)
          rw [FsPath.getRelativePath_absolute ha ht' han] at he
          exact .inr (.inr ⟨m, hmem, t', htn, by rw [hk]; simp, by rw [hk]; rfl, he⟩)
        · rintro (⟨-, m, hmem, hpre⟩ | ⟨m, hmem, he, -⟩ | ⟨m, hmem, hs⟩)
          · exact absurd (hanc m hmem hpre) htn
          · exact absurd he (hempty m hmem)
          · have hk := hserve m hmem hs
            have han : a ≠ [] := fun h => FsPath.splitElements_ne_singleton m.path (h ▸ hk)
            obtain ⟨u, -, -, hnu, he⟩ := hs
            rw [hk, List.cons_append] at hnu
            obtain rfl := List.append_cancel_left (List.cons.inj hnu).2
            rw [FsPath.getRelativePath_absolute ha ht' han]
            exact ⟨m, hmem, hk, he⟩

/-- The mounts at other points than the root say what all of them do, save what one at the root
provides. -/
theorem existsBy_filter (ht : ∀ e ∈ t, Plain e) (h : t ≠ []) :
    ExistsBy fs (ms.filter fun m => m.path ≠ .root) (.absolute t) kind ↔
      kind = .directory ∧ (∃ m ∈ ms, [] :: t <+: m.key) ∨ ∃ m ∈ ms, m.Serves fs ([] :: t) kind := by
  have hroot : ∀ m : Mount ι, [] :: t <+: m.key → m.path ≠ .root := fun m hpre hr => by
    rw [Mount.key, hr, FsPath.splitElements_root] at hpre
    obtain ⟨e, t', rfl⟩ := List.exists_cons_of_ne_nil h
    have he := (List.cons_prefix_cons.mp (List.cons_prefix_cons.mp hpre).2).1
    exact (ht e List.mem_cons_self).ne_nil he
  rw [existsBy_iff ht h]
  simp only [List.mem_filter, decide_eq_true_eq]
  constructor
  · rintro (⟨hk, m, ⟨hmem, -⟩, hpre⟩ | ⟨m, ⟨-, hne⟩, hr, -⟩ | ⟨m, ⟨hmem, -⟩, hs⟩)
    · exact .inl ⟨hk, m, hmem, hpre⟩
    · exact absurd hr hne
    · exact .inr ⟨m, hmem, hs⟩
  · rintro (⟨hk, m, hmem, hpre⟩ | ⟨m, hmem, hs⟩)
    · exact .inl ⟨hk, m, ⟨hmem, hroot m hpre⟩, hpre⟩
    · exact .inr (.inr ⟨m, ⟨hmem, hs.ne_root ht⟩, hs⟩)

/-- Two answers that differ in one part each, of which the first excludes everything else. -/
theorem iff_iff_of_exclusive {D E A S : Prop} (h : E → ¬ D ∧ ¬ A ∧ ¬ S) :
    ((D ∨ E ∨ S) ↔ (D ∨ A ∨ S)) ↔ ¬ E ∧ (A → D ∨ S) := by
  tauto

theorem agreed_below {vfs : VirtualFileSystemImpl ι} (hm : Table ms vfs.root)
    (ht : ∀ e ∈ t, Plain e) (h : t ≠ []) :
    (∀ kind, vfs.pathExists fs (.absolute t) (some kind) = true ↔
      ExistsBy fs ms (.absolute t) kind) ↔ Agreed fs ms (.absolute t) := by
  rw [Agreed, if_neg (FsPath.absolute_eq_root ht h)]
  refine forall_congr' fun kind => ?_
  have hA : (∀ m ∈ ms, m.path = .root → m.Provides fs (.absolute t) kind →
      ExistsBy fs (ms.filter fun m => m.path ≠ .root) (.absolute t) kind) ↔
      ((∃ m ∈ ms, m.path = .root ∧ (fs m.fs).pathExists (.relative t) (some kind) = true) →
        ExistsBy fs (ms.filter fun m => m.path ≠ .root) (.absolute t) kind) := by
    refine ⟨fun hp ⟨m, hmem, hr, he⟩ => hp m hmem hr ((m.provides_iff ht h).mpr (.inl ⟨hr, he⟩)),
      fun hp m hmem hr hpr => ?_⟩
    rcases (m.provides_iff ht h).mp hpr with ⟨-, he⟩ | hs
    · exact hp ⟨m, hmem, hr, he⟩
    · exact absurd hr (hs.ne_root ht)
  have hE : (∀ m ∈ ms, m.path = .empty → (fs m.fs).pathExists .empty (some kind) = false) ↔
      ¬ ∃ m ∈ ms, m.path = .empty ∧ (fs m.fs).pathExists .empty (some kind) = true := by
    simp
  have hkey : ∀ {m m' : Mount ι}, m ∈ ms → m.path = .empty → m' ∈ ms → m'.key = [] :=
    fun hmem he hmem' => by
      by_contra hk
      exact hm.path_ne_empty hmem hmem' hk he
  have hD : (∃ m ∈ ms, m.path = .empty ∧ (fs m.fs).pathExists .empty (some kind) = true) →
      ¬ (∃ m ∈ ms, [] :: t <+: m.key) ∧ (¬ ∃ m ∈ ms, m.path = .root ∧
        (fs m.fs).pathExists (.relative t) (some kind) = true) ∧
        ¬ ∃ m ∈ ms, m.Serves fs ([] :: t) kind := by
    rintro ⟨m, hmem, he, -⟩
    refine ⟨?_, ?_, ?_⟩
    · rintro ⟨m', hmem', hpre⟩
      rw [hkey hmem he hmem'] at hpre
      cases List.prefix_nil.mp hpre
    · rintro ⟨m', hmem', hr, -⟩
      have := hkey hmem he hmem'
      rw [Mount.key, hr, FsPath.splitElements_root] at this
      cases this
    · rintro ⟨m', hmem', hs⟩
      exact hs.key_ne (hkey hmem he hmem')
  rw [hA, hE, pathExists_iff hm ht h, existsBy_iff ht h, existsBy_filter ht h]
  exact iff_iff_of_exclusive fun he => ⟨fun hk => (hD he).1 hk.2, (hD he).2⟩

end Below

/-! ### The root -/

section Root
variable {fs : ι → FileSystem} {ms : List (Mount ι)} {kind : FsEntryKind}

theorem FsPath.foldl_nil {q : List Name} (h : ∀ e ∈ q, e = []) :
    q.foldl appendInternal root = root := by
  induction q with
  | nil => rfl
  | cons e q ih =>
      have h₀ : root.appendInternal [] = root := by decide
      rw [List.foldl_cons, h e List.mem_cons_self, h₀]
      exact ih fun f hf => h f (List.mem_cons_of_mem _ hf)

theorem pathExists_root {vfs : VirtualFileSystemImpl ι} (hm : Table ms vfs.root) :
    vfs.pathExists fs .root (some kind) = true ↔ kind = .directory := by
  obtain ⟨q, t', n, hn, -, hw, -⟩ := hm.walk FsPath.root.splitElements .root
  have hq : ∀ e ∈ q, e = [] := fun e he => by
    have : e ∈ FsPath.root.splitElements := hn ▸ List.mem_append_left _ he
    simpa [FsPath.splitElements_root] using this
  rw [FsPath.foldl_nil hq] at hw
  rw [pathExists_of_walk hw (by decide), if_pos rfl]

theorem existsBy_root :
    ExistsBy fs ms .root kind ↔ kind = .directory ∧ ∃ m ∈ ms, m.path.isAbsolute = true := by
  have hp : ¬ ∃ m ∈ ms, m.Provides fs .root kind := by
    rintro ⟨m, -, r, ⟨hr, hj⟩, -⟩
    obtain ⟨hne, hhead⟩ := FsPath.isRelative_elements hr
    rw [FsPath.splitElements_root] at hj
    split at hj
    · exact r.splitElements_ne_singleton (List.cons.inj hj).2.symm
    · cases hr' : r.splitElements with
      | nil => exact hne hr'
      | cons e u =>
          have he : e ∈ [([] : Name), []] := by
            rw [hj, hr']; simp
          rw [hr'] at hhead
          simp at he hhead
          exact hhead he
  simp only [ExistsBy, hp, or_false, FsPath.IsAncestorOrEqual, ↓reduceIte]

end Root

/-- **`exists` and the mounts agree on a normalized absolute path exactly when `Agreed` says
so.** -/
theorem exists_agrees (fs : ι → FileSystem) {ms : List (Mount ι)} {vfs : VirtualFileSystemImpl ι}
    (h : VirtualFileSystemImpl.mountAll fs {} ms = some vfs) {p : FsPath} (hp : p.Normalized)
    (ha : p.isAbsolute = true) :
    (∀ kind, vfs.pathExists fs p (some kind) = true ↔ ExistsBy fs ms p kind) ↔
      Agreed fs ms p := by
  have hm := VirtualFileSystemImpl.table h
  obtain ⟨t, ht, rfl⟩ := FsPath.exists_absolute hp ha
  by_cases hne : t = []
  · subst hne
    rw [FsPath.absolute_nil, Agreed, if_pos rfl]
    simp only [pathExists_root hm, existsBy_root]
    exact ⟨fun hk => ((hk .directory).mp rfl).2, fun hk kind => (and_iff_left hk).symm⟩
  · exact agreed_below hm ht hne

/-- A read-only file system of one file, `f`. -/
def oneFile : FileSystem where
  isReadOnly := true
  pathExists path kind :=
    path = .ofString ['f'] && kind ≠ some .directory || path = .empty && kind ≠ some .file
  dirEntries path := if path = .empty then [⟨.ofString ['f'], .file, 0, 0⟩] else []
  dirEntries_ne path e he := by
    split at he
    · rw [List.mem_singleton.mp he]; decide
    · cases he

/-- Mounted at `/m`, its file is found at `/m/f`, and neither `/m/f` nor `/f` is a directory. -/
theorem oneFile_agrees :
    ∃ vfs, VirtualFileSystemImpl.mountAll (fun _ : Unit => oneFile) {}
        [⟨.ofString ['/', 'm'], (), 0⟩] = some vfs ∧
      (∀ kind, vfs.pathExists (fun _ => oneFile) (.ofString ['/', 'm', '/', 'f']) (some kind) =
        true ↔ ExistsBy (fun _ => oneFile) [⟨.ofString ['/', 'm'], (), 0⟩]
          (.ofString ['/', 'm', '/', 'f']) kind) := by
  refine ⟨_, rfl, (exists_agrees _ rfl ⟨by decide, by decide⟩ (by decide)).mpr ?_⟩
  rw [Agreed, if_neg (by decide)]
  refine fun kind => ⟨fun m hm he => ?_, fun m hm hr => ?_⟩
  · rw [List.mem_singleton.mp hm] at he
    exact absurd he (by decide)
  · rw [List.mem_singleton.mp hm] at hr
    exact absurd hr (by decide)

/-- Mounted at the root, its file is not found at `/f`. -/
theorem oneFile_at_root :
    ∃ vfs, VirtualFileSystemImpl.mountAll (fun _ : Unit => oneFile) {}
        [⟨.ofString ['/'], (), 0⟩] = some vfs ∧
      vfs.pathExists (fun _ => oneFile) (.ofString ['/', 'f']) (some .file) = false ∧
      ExistsBy (fun _ => oneFile) [⟨.ofString ['/'], (), 0⟩] (.ofString ['/', 'f']) .file := by
  refine ⟨_, rfl, by decide, .inr ⟨⟨.ofString ['/'], (), 0⟩, by simp, .ofString ['f'], ?_, ?_⟩⟩
  · exact ⟨by decide, by decide⟩
  · decide

end MyEngine.Io
