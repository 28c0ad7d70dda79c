import MyEngine.Io.DirListing
import MyEngine.Support.Tally

/-!
# Io — ListDirectory

A directory at or below a mount point, listed through the virtual file system, against the
concatenation of what each mount adds to it: `listDirectory_agrees` says exactly when the two are
the same.
-/

namespace MyEngine.Io

variable {ι : Type}

/-! ### What the mounts say -/

/-- The elements of `d` below the mount point, when `d` is at or below it. -/
def Mount.rest (m : Mount ι) (d : FsPath) : Option (List Name) :=
  if m.path = .root then
    some (if d = .root then [] else d.splitElements.tail)
  else if m.key ≠ [] ∧ m.key <+: d.splitElements then
    some (d.splitElements.drop m.key.length)
  else
    none

/-- What the mount adds to the directory. -/
def Mount.contribution (fs : ι → FileSystem) (d : FsPath) (m : Mount ι) : List FsEntry :=
  match m.rest d with
  | none   => []
  | some u => listed fs m.path (.relative u) m.fs

/-- The walk to the directory comes to the mount point: not to the root, unless it is the
directory itself. -/
def Mount.Found (d : FsPath) (m : Mount ι) : Prop :=
  (m.rest d).isSome ∧ (m.path = .root → d = .root)

instance (d : FsPath) : DecidablePred (Mount.Found d : Mount ι → Prop) := fun m =>
  inferInstanceAs (Decidable ((m.rest d).isSome ∧ (m.path = .root → d = .root)))

/-- The file system has the directory, and nothing in it. -/
def Mount.Empty (fs : ι → FileSystem) (d : FsPath) (m : Mount ι) : Prop :=
  EmptyDir fs (d.getRelativePath m.path) m.fs

instance (fs : ι → FileSystem) (d : FsPath) : DecidablePred (Mount.Empty fs d) := fun m =>
  inferInstanceAs (Decidable (EmptyDir fs (d.getRelativePath m.path) m.fs))

/-- The directory of a child of an inner node. -/
def childEntry (base : FsPath) (c : FsNode ι) : FsEntry :=
  ⟨(FsPath.ofString base.path).appendInternal c.name, .directory, 0, 0⟩

/-- Where the listing and the mounts agree.  Below a mount point that is found: the file systems
mounted there, up to the first one that has the directory empty, are different objects, and
neither those after it nor one mounted at the root adds anything.  Below the root alone: what the
file systems mounted there add are the directories that lead to other mount points. -/
def ListingAgreed (fs : ι → FileSystem) (root : FsNode ι) (ms : List (Mount ι)) (d : FsPath) :
    Prop :=
  let found := ms.filter fun m => m.Found d
  if found = [] then
    ∃ n, root.descend d.splitElements = some n ∧
      ms.flatMap (Mount.contribution fs d) = n.children.map (childEntry d)
  else
    ((found.takeWhile fun m => ¬ m.Empty fs d).map (·.fs)).Nodup ∧
      (∀ m ∈ found.dropWhile fun m => ¬ m.Empty fs d, m.contribution fs d = []) ∧
      ∀ m ∈ ms, ¬ m.Found d → m.contribution fs d = []

/-! ### The listing, from the node found -/

section Inner
variable {base : FsPath} {n : FsNode ι}

/-- The iterator over the children of an inner node, standing at the `i`-th. -/
def innerAt (base : FsPath) (n : FsNode ι) (i : Nat) : InnerDirIteratorImpl ι :=
  ⟨base, n, if i < n.children.length then some i else none⟩

theorem innerAt_getCurrent (i : Nat) :
    (innerAt base n i).getCurrent = n.children[i]?.map (childEntry base) := by
  by_cases h : i < n.children.length
  · simp only [InnerDirIteratorImpl.getCurrent, innerAt, h, ↓reduceIte, Option.bind_some]
    rfl
  · simp [InnerDirIteratorImpl.getCurrent, innerAt, h]

theorem innerAt_increment {i : Nat} (h : i < n.children.length) :
    (innerAt base n i).increment = innerAt base n (i + 1) := by
  simp [InnerDirIteratorImpl.increment, innerAt, h, FsNode.getNextChild]

end Inner

section Found
variable [DecidableEq ι] {fs : ι → FileSystem} {vfs : VirtualFileSystemImpl ι} {d base : FsPath}
  {n : FsNode ι} {es : List FsEntry}

theorem listDirectory_none (h : vfs.findFsNodeForPath d = (base, none)) (fuel : Nat) :
    vfs.listDirectory fs fuel d = some (.error "Directory does not exists") := by
  rw [VirtualFileSystemImpl.listDirectory, VirtualFileSystemImpl.openDirIterator, h]

theorem listDirectory_multi (h : vfs.findFsNodeForPath d = (base, some n))
    (hm : n.hasMounts = true) :
    (∃ fuel, vfs.listDirectory fs fuel d = some (.ok es)) ↔
      Yields fs base (d.getRelativePath base) n none es := by
  have ho : ∀ fuel, vfs.openDirIterator fs fuel d =
      ((standing base (d.getRelativePath base) n none).getNextFsIterator fs fuel none).map
        fun it => .ok (.multi it) := fun fuel => by
    simp [VirtualFileSystemImpl.openDirIterator, h, hm, MultiFsDirIteratorImpl.new]
  constructor
  · rintro ⟨fuel, hl⟩
    rw [VirtualFileSystemImpl.listDirectory, ho] at hl
    cases hn : (standing base (d.getRelativePath base) n none).getNextFsIterator fs fuel none with
    | none => simp [hn] at hl
    | some it' =>
        obtain ⟨iter', rfl, hy⟩ := getNextFsIterator_sound hn
        simp only [hn, Option.map_some, Option.map_eq_some_iff, Except.ok.injEq] at hl
        obtain ⟨es', he, rfl⟩ := hl
        cases iter' with
        | none =>
            cases fuel with
            | zero => cases he
            | succ fuel => exact Option.some.inj he ▸ hy
        | some i =>
            obtain ⟨es₁, hy₁, rfl⟩ := entriesFrom_sound he
            exact hy es₁ hy₁
  · intro y
    obtain ⟨k, hk⟩ := y.complete
    obtain ⟨it', hn, hes⟩ := hk k k le_rfl le_rfl none
    exact ⟨k, by rw [VirtualFileSystemImpl.listDirectory, ho, hn, Option.map_some]; simp [hes]⟩

theorem entriesFrom_inner {inner fuel i : Nat} :
    VirtualFileSystemImpl.entriesFrom fs inner fuel (.inner (innerAt base n i)) =
      if n.children.length - i < fuel then some ((n.children.drop i).map (childEntry base))
      else none := by
  induction fuel generalizing i with
  | zero => rfl
  | succ fuel ih =>
      rw [VirtualFileSystemImpl.entriesFrom, DirIteratorImpl.getCurrent, innerAt_getCurrent]
      by_cases h : i < n.children.length
      · have hlt : n.children.length - i < fuel + 1 ↔ n.children.length - (i + 1) < fuel := by
          omega
        rw [List.getElem?_eq_getElem h, List.drop_eq_getElem_cons h]
        simp only [Option.map_some, DirIteratorImpl.increment, innerAt_increment h, ih, hlt]
        split <;> rfl
      · rw [List.getElem?_eq_none (Nat.le_of_not_lt h), List.drop_of_length_le (Nat.le_of_not_lt h),
          if_pos (by omega)]
        rfl

theorem listDirectory_inner (h : vfs.findFsNodeForPath d = (base, some n))
    (hm : n.hasMounts = false) :
    (∃ fuel, vfs.listDirectory fs fuel d = some (.ok es)) ↔
      es = n.children.map (childEntry base) := by
  have hn : InnerDirIteratorImpl.new base n = innerAt base n 0 := rfl
  have hl : ∀ fuel, vfs.listDirectory fs fuel d = if n.children.length < fuel
      then some (.ok (n.children.map (childEntry base))) else none := fun fuel => by
    simp only [VirtualFileSystemImpl.listDirectory, VirtualFileSystemImpl.openDirIterator, h, hm,
      hn, Bool.not_false, ↓reduceIte, entriesFrom_inner, Nat.sub_zero, List.drop_zero]
    split <;> rfl
  constructor
  · rintro ⟨fuel, hf⟩
    rw [hl] at hf
    split at hf
    · exact (Except.ok.inj (Option.some.inj hf)).symm
    · cases hf
  · rintro rfl
    exact ⟨n.children.length + 1, by rw [hl, if_pos (Nat.lt_succ_self _)]⟩

end Found

/-! ### The node found -/

section Table
variable {fs : ι → FileSystem} {ms : List (Mount ι)} {root : FsNode ι} {t : List Name}
  {m : Mount ι}

theorem Mount.path_eq_root (hk : m.key = [[], []]) : m.path = .root :=
  FsPath.splitElements_inj (hk.trans FsPath.splitElements_root.symm)

/-- A mount point is found when it is at or above the directory, element by element. -/
theorem Mount.found_iff (ht : ∀ e ∈ t, Plain e) :
    m.Found (.absolute t) ↔ m.key ≠ [] ∧ m.key <+: (FsPath.absolute t).splitElements := by
  by_cases hr : m.path = .root
  · have hk : m.key = [[], []] := by rw [Mount.key, hr, FsPath.splitElements_root]
    by_cases h : t = []
    · subst h
      simp [Found, rest, hr, hk, FsPath.absolute_nil, FsPath.splitElements_root]
    · obtain ⟨e, t', rfl⟩ := List.exists_cons_of_ne_nil h
      have he := (ht e List.mem_cons_self).ne_nil
      simp [Found, hr, hk, FsPath.absolute_eq_root ht h, FsPath.splitElements_absolute ht h,
        he.symm]
  · simp only [Found, rest, hr, if_false, false_implies, and_true]
    split
    · next h => simp [h]
    · next h => simp only [Option.isSome_none, Bool.false_eq_true, false_iff]; exact h

/-- What is left below a mount point that is found is the relative path the code computes. -/
theorem Mount.rest_found (ht : ∀ e ∈ t, Plain e) (hf : m.Found (.absolute t)) :
    ∃ u, m.rest (.absolute t) = some u ∧
      (FsPath.absolute t).getRelativePath m.path = .relative u ∧
      m.key.foldl .appendInternal .root = m.path := by
  by_cases h : t = []
  · subst h
    have hr : m.path = .root := by
      obtain ⟨hk, hpre⟩ := (found_iff ht).mp hf
      rw [FsPath.absolute_nil, FsPath.splitElements_root] at hpre
      obtain ⟨b, hkb, hb⟩ := (List.prefix_cons_iff.mp hpre).resolve_left hk
      rcases List.prefix_cons_iff.mp hb with rfl | ⟨c, rfl, hc⟩
      · exact absurd hkb m.path.splitElements_ne_singleton
      · rw [List.prefix_nil.mp hc] at hkb
        exact path_eq_root hkb
    refine ⟨[], ?_, ?_, ?_⟩
    · simp [rest, hr, FsPath.absolute_nil]
    · rw [hr, FsPath.absolute_nil]
      decide
    · rw [Mount.key, hr]
      decide
  · obtain ⟨hk, u, hu⟩ := (found_iff ht).mp hf
    have hr : m.path ≠ .root := fun hr => FsPath.absolute_eq_root ht h (hf.2 hr)
    rw [FsPath.splitElements_absolute ht h] at hu
    cases hkey : m.key with
    | nil => exact absurd hkey hk
    | cons a b =>
        rw [hkey, List.cons_append] at hu
        obtain ⟨rfl, rfl⟩ := List.cons.inj hu
        have hb : ∀ e ∈ b, Plain e := fun e he => ht e (List.mem_append_left _ he)
        have hu' : ∀ e ∈ u, Plain e := fun e he => ht e (List.mem_append_right _ he)
        have hbn : b ≠ [] := fun h => FsPath.splitElements_ne_singleton m.path (h ▸ hkey)
        have hp : m.path = .absolute b := FsPath.splitElements_inj
          (hkey.trans (FsPath.splitElements_absolute hb hbn).symm)
        refine ⟨u, ?_, ?_, ?_⟩
        · rw [rest, if_neg hr, FsPath.splitElements_absolute ht h, hkey,
            if_pos ⟨List.cons_ne_nil _ _, by simp⟩]
          simp
        · rw [hp, FsPath.getRelativePath_absolute hb hu' hbn]
        · rw [FsPath.foldl_root hb, hp]

/-- The walk to the directory comes to the mount point, and what is mounted there is what is
found. -/
theorem Table.find_found {vfs : VirtualFileSystemImpl ι} (hm : Table ms vfs.root)
    (ht : ∀ e ∈ t, Plain e) (hmem : m ∈ ms) (hf : m.Found (.absolute t)) :
    (∀ m' ∈ ms, m'.Found (.absolute t) ↔ m'.key = m.key) ∧
    ∃ n, vfs.findFsNodeForPath (.absolute t) = (m.path, some n) ∧
      n.mountedFs = (ms.filter fun m' => m'.Found (.absolute t)).map Mount.entry := by
  obtain ⟨q, t', n, hn, hmf, hw, -, hq, hp⟩ := hm.walk (FsPath.absolute t).splitElements .root
  have hkey : ∀ m' ∈ ms, m'.Found (.absolute t) → m'.key = q := fun m' hmem' hf' =>
    hm.walk_key hq hp hmem' ((Mount.found_iff ht).mp hf').1 ((Mount.found_iff ht).mp hf').2
  have hiff : ∀ m' ∈ ms, m'.Found (.absolute t) ↔ m'.key = m.key := fun m' hmem' => by
    refine ⟨fun hf' => (hkey m' hmem' hf').trans (hkey m hmem hf).symm, fun he => ?_⟩
    rw [Mount.found_iff ht, he]
    exact (Mount.found_iff ht).mp hf
  have hfil : (ms.filter fun m' => m'.key = q) = ms.filter fun m' => m'.Found (.absolute t) :=
    List.filter_congr fun m' hmem' => by
      rw [decide_eq_decide, hiff m' hmem', hkey m hmem hf]
  have hmounts : n.hasMounts = true := by
    have : m ∈ ms.filter fun m' => m'.Found (.absolute t) := by simp [hmem, hf]
    rw [FsNode.hasMounts, hmf, hfil, decide_eq_true_eq]
    exact fun h => List.ne_nil_of_mem this (List.map_eq_nil_iff.mp h)
  obtain ⟨u, -, -, hbase⟩ := Mount.rest_found ht hf
  rw [← hkey m hmem hf, hbase] at hw
  exact ⟨hiff, n, by rw [VirtualFileSystemImpl.findFsNodeForPath, hw]; simp [hmounts],
    by rw [hmf, hfil]⟩

theorem Mount.rest_congr {m' : Mount ι} (h : m'.path = m.path) (d : FsPath) :
    m'.rest d = m.rest d := by
  rw [rest, rest, Mount.key, Mount.key, h]

variable [DecidableEq ι] {vfs : VirtualFileSystemImpl ι} {es : List FsEntry}

/-- A directory below a mount point that is found. -/
theorem listDirectory_found (hm : Table ms vfs.root) (ht : ∀ e ∈ t, Plain e) (hmem : m ∈ ms)
    (hf : m.Found (.absolute t)) :
    (∃ fuel, vfs.listDirectory fs fuel (.absolute t) = some (.ok es)) ↔
      let l := (ms.filter fun m => m.Found (.absolute t)).takeWhile
        fun m => ¬ m.Empty fs (.absolute t)
      (l.map (·.fs)).Nodup ∧ es = l.flatMap (Mount.contribution fs (.absolute t)) := by
  obtain ⟨hiff, n, hfind, hmf⟩ := hm.find_found ht hmem hf
  obtain ⟨u, hu, hrel, -⟩ := Mount.rest_found ht hf
  have hmounts : n.hasMounts = true := by
    have : m ∈ ms.filter fun m' => m'.Found (.absolute t) := by simp [hmem, hf]
    rw [FsNode.hasMounts, hmf, decide_eq_true_eq]
    exact fun h => List.ne_nil_of_mem this (List.map_eq_nil_iff.mp h)
  have hpath : ∀ m' ∈ ms.filter fun m' => m'.Found (.absolute t), m'.path = m.path :=
    fun m' hmem' => by
      rw [List.mem_filter, decide_eq_true_eq] at hmem'
      exact FsPath.splitElements_inj ((hiff m' hmem'.1).mp hmem'.2)
  have hids : n.mountedFs.map (·.fs) =
      (ms.filter fun m' => m'.Found (.absolute t)).map (·.fs) := by
    rw [hmf, List.map_map]
    rfl
  have htake : ((ms.filter fun m' => m'.Found (.absolute t)).takeWhile
      fun m' => ¬ EmptyDir fs (.relative u) m'.fs) =
      (ms.filter fun m' => m'.Found (.absolute t)).takeWhile
        fun m' => ¬ m'.Empty fs (.absolute t) :=
    takeWhile_congr fun m' hmem' => by
      show _ = decide (¬ EmptyDir fs ((FsPath.absolute t).getRelativePath m'.path) m'.fs)
      rw [hpath m' hmem', hrel]
  rw [listDirectory_multi hfind hmounts, hrel, yields_iff, hids, List.takeWhile_map]
  simp only [Function.comp_def]
  rw [htake]
  refine and_congr_right fun _ => ?_
  rw [List.flatMap_map]
  refine Eq.congr_right (List.flatMap_congr fun m' hmem' => ?_)
  have hp := hpath m' ((List.takeWhile_sublist _).subset hmem')
  rw [Mount.contribution, Mount.rest_congr hp, hu, hp]

/-- A directory below the root alone: the virtual directories there, if there are any. -/
theorem listDirectory_unfound (hm : Table ms vfs.root) (ht : ∀ e ∈ t, Plain e)
    (hf : ∀ m ∈ ms, ¬ m.Found (.absolute t)) (hmem : m ∈ ms)
    (hr : (m.rest (.absolute t)).isSome) :
    (∃ fuel, vfs.listDirectory fs fuel (.absolute t) = some (.ok es)) ↔
      ∃ n, vfs.root.descend (FsPath.absolute t).splitElements = some n ∧
        es = n.children.map (childEntry (.absolute t)) := by
  have hroot : m.path = .root ∧ FsPath.absolute t ≠ .root := by
    have := hf m hmem
    simpa [Mount.Found, hr] using this
  have h : t ≠ [] := fun h => hroot.2 (h ▸ FsPath.absolute_nil)
  obtain ⟨q, t', n, hn, hmf, hw, hd, -⟩ := hm.walk (FsPath.absolute t).splitElements .root
  have hmounts : n.mountedFs = [] := by
    rw [hmf, List.map_eq_nil_iff, List.filter_eq_nil_iff]
    intro m' hmem' hq
    have hq : m'.key = q := of_decide_eq_true hq
    refine hf m' hmem' ((Mount.found_iff ht).mpr ⟨fun hk => ?_, ?_⟩)
    · have := hm.antichain hmem' hmem (hk ▸ List.nil_prefix)
      rw [hk, Mount.key, hroot.1, FsPath.splitElements_root] at this
      cases this
    · exact hq ▸ ⟨t', hn.symm⟩
  have hhas : n.hasMounts = false := by simp [FsNode.hasMounts, hmounts]
  rw [hd]
  by_cases htn : t' = []
  · subst htn
    rw [List.append_nil] at hn
    rw [← hn, FsPath.splitElements_absolute ht h, FsPath.foldl_root ht] at hw
    have hfind : vfs.findFsNodeForPath (.absolute t) = (.absolute t, some n) := by
      rw [VirtualFileSystemImpl.findFsNodeForPath, FsPath.splitElements_absolute ht h, hw]
      simp [FsPath.equals_iff.mpr]
    rw [listDirectory_inner hfind hhas]
    simp
  · have hbase : (q.foldl .appendInternal .root : FsPath) ≠ .absolute t := by
      rw [FsPath.splitElements_absolute ht h] at hn
      cases q with
      | nil => exact (FsPath.absolute_eq_root ht h).symm
      | cons x a =>
          rw [List.cons_append] at hn
          obtain ⟨rfl, rfl⟩ := List.cons.inj hn
          have ha : ∀ e ∈ a, Plain e := fun e he => ht e (List.mem_append_left _ he)
          rw [FsPath.foldl_root ha]
          intro he
          have := FsPath.absolute_inj ha ht he
          exact htn (List.append_cancel_left (this.symm.trans (List.append_nil a).symm))
    have hfind : vfs.findFsNodeForPath (.absolute t) = (.empty, none) := by
      have he : (q.foldl .appendInternal .root : FsPath).equals (.absolute t) = false := by
        rw [← Bool.not_eq_true, FsPath.equals_iff]
        exact hbase
      rw [VirtualFileSystemImpl.findFsNodeForPath, hw]
      simp [he, hhas]
    simp [listDirectory_none hfind, htn]

end Table

/-- **Opening a directory at or below a mount point and incrementing to the end yields the
concatenation of what the mounts add to it exactly when `ListingAgreed` says so.** -/
theorem listDirectory_agrees [DecidableEq ι] (fs : ι → FileSystem) {ms : List (Mount ι)}
    {vfs : VirtualFileSystemImpl ι} (h : VirtualFileSystemImpl.mountAll fs {} ms = some vfs)
    {d : FsPath} (hd : d.Normalized) (ha : d.isAbsolute = true)
    (hr : ∃ m ∈ ms, (m.rest d).isSome) :
    (∃ fuel, vfs.listDirectory fs fuel d =
      some (.ok (ms.flatMap (Mount.contribution fs d)))) ↔
      ListingAgreed fs vfs.root ms d := by
  have hm := VirtualFileSystemImpl.table h
  obtain ⟨t, ht, rfl⟩ := FsPath.exists_absolute hd ha
  rw [ListingAgreed]
  by_cases hf : ∃ m ∈ ms, m.Found (.absolute t)
  · obtain ⟨m, hmem, hf⟩ := hf
    have hne : ms.filter (fun m => m.Found (.absolute t)) ≠ [] :=
      List.ne_nil_of_mem (List.mem_filter.mpr ⟨hmem, decide_eq_true hf⟩)
    rw [listDirectory_found hm ht hmem hf, if_neg hne]
    refine and_congr_right fun _ => ?_
    rw [flatMap_eq_takeWhile_iff]
    simp
  · obtain ⟨m, hmem, hr⟩ := hr
    have hf : ∀ m ∈ ms, ¬ m.Found (.absolute t) := fun m hmem h => hf ⟨m, hmem, h⟩
    have hnil : ms.filter (fun m => m.Found (.absolute t)) = [] := by
      simpa [List.filter_eq_nil_iff] using hf
    rw [listDirectory_unfound hm ht hf hmem hr, if_pos hnil]

/-! ### A file system with a file, and one without -/

/-- A read-only file system of an empty directory. -/
def noFile : FileSystem where
  isReadOnly := true
  pathExists path kind := path = .empty && kind ≠ some .file
  dirEntries _ := []
  dirEntries_ne _ _ h := by cases h

def fileOr (file : Bool) : FileSystem := if file then oneFile else noFile

/-- The path `/m`. -/
def mountPoint : FsPath := .absolute [['m']]

theorem mountPoint_plain : ∀ e ∈ [['m']], Plain e := fun e he => by
  rw [List.mem_singleton.mp he]
  exact { makePreferredPathString_eq_iff.mp (by decide) with
    ne_nil := by decide
    slash_notMem := by decide }

/-- The file system with a file, then the empty one. -/
theorem mountPoint_agrees :
    ∃ vfs, VirtualFileSystemImpl.mountAll fileOr {}
        [⟨mountPoint, true, 0⟩, ⟨mountPoint, false, 0⟩] =
        some vfs ∧
      ∃ fuel, vfs.listDirectory fileOr fuel mountPoint =
        some (.ok [⟨.absolute [['m'], ['f']], .file, 0, 0⟩]) := by
  obtain ⟨vfs, hv⟩ : ∃ vfs, VirtualFileSystemImpl.mountAll fileOr {}
      [⟨mountPoint, true, 0⟩, ⟨mountPoint, false, 0⟩] = some vfs := ⟨_, rfl⟩
  have hd : mountPoint.Normalized := ⟨by decide, by decide⟩
  have h := (listDirectory_agrees fileOr hv hd (by decide) (by decide)).mpr ?_
  · exact ⟨vfs, hv, h⟩
  · obtain rfl := Option.some.inj hv
    rw [ListingAgreed, if_neg (by decide)]
    decide

/-- Where the directory is empty in the first file system, the file of the second is lost; where
one file system is mounted twice, the listing does not end. -/
theorem mountPoint_lost_and_endless :
    (∃ vfs, VirtualFileSystemImpl.mountAll fileOr {}
        [⟨mountPoint, false, 0⟩, ⟨mountPoint, true, 0⟩] = some vfs ∧
      [⟨mountPoint, false, 0⟩, ⟨mountPoint, true, 0⟩].flatMap
        (Mount.contribution fileOr mountPoint) = [⟨.absolute [['m'], ['f']], .file, 0, 0⟩] ∧
      vfs.listDirectory fileOr 3 mountPoint = some (.ok [])) ∧
    ∃ vfs, VirtualFileSystemImpl.mountAll fileOr {}
        [⟨mountPoint, true, 0⟩, ⟨mountPoint, true, 0⟩] = some vfs ∧
      ∀ fuel es, vfs.listDirectory fileOr fuel mountPoint ≠ some (.ok es) := by
  obtain ⟨vfs, hv⟩ : ∃ vfs, VirtualFileSystemImpl.mountAll fileOr {}
    [⟨mountPoint, true, 0⟩, ⟨mountPoint, true, 0⟩] = some vfs := ⟨_, rfl⟩
  refine ⟨⟨_, rfl, by decide, by decide⟩, vfs, hv, fun fuel es h => ?_⟩
  have := (listDirectory_found (VirtualFileSystemImpl.table hv) mountPoint_plain
    (m := ⟨mountPoint, true, 0⟩) (by simp) (by decide)).mp ⟨fuel, h⟩
  exact absurd this.1 (by decide)

end MyEngine.Io
