import MyEngine.Io.FsPath

/-!
# Io — VirtualFileSystem

`virtual_file_system_impl.cpp`: file systems mounted in a tree of named nodes, and the walk that
finds the node a path leads to.  A mounted file system is known by its pointer, a value of `ι`;
`fs` is the object behind it.

`Table` says what the tree is after a sequence of mounts: its nodes are the prefixes of the
mount points' elements, and a node holds the file systems mounted there in their order.
-/

namespace MyEngine.Io

inductive FsEntryKind where
  | file
  | directory
  deriving DecidableEq

structure FsEntry where
  path : FsPath
  kind : FsEntryKind
  size : Nat := 0
  lastWriteTime : Nat := 0
  deriving DecidableEq

/-- `FsEntry::isEmpty`: an entry without a path stands for the end of a directory. -/
def FsEntry.isEmpty (e : FsEntry) : Bool := e.path.isEmpty

/-- The `FileSystem` interface, as far as a virtual file system asks it. -/
structure FileSystem where
  isReadOnly : Bool
  /-- `exists(path, kind)`. -/
  pathExists : FsPath → Option FsEntryKind → Bool
  /-- What a directory iterator opened on the path goes through. -/
  dirEntries : FsPath → List FsEntry
  dirEntries_ne : ∀ path, ∀ e ∈ dirEntries path, e.isEmpty = false

structure FileSystemEntry (ι : Type) where
  fs : ι
  priority : Nat
  deriving DecidableEq

inductive FsNode (ι : Type) where
  | mk (name : Name) (children : List (FsNode ι)) (mountedFs : List (FileSystemEntry ι))

variable {ι : Type}

namespace FsNode

/-- `FsNode(name)`. -/
def new (name : Name) : FsNode ι := ⟨name, [], []⟩

def name : FsNode ι → Name
  | ⟨name, _, _⟩ => name

def children : FsNode ι → List (FsNode ι)
  | ⟨_, children, _⟩ => children

def mountedFs : FsNode ι → List (FileSystemEntry ι)
  | ⟨_, _, mountedFs⟩ => mountedFs

def findChild (node : FsNode ι) (name : Name) : Option (FsNode ι) :=
  node.children.find? fun c => c.name = name

/-- `getChild`: the child of that name, or a new one, which the node gets with `setChild`. -/
def getChild (node : FsNode ι) (name : Name) : Except String (FsNode ι) :=
  match node.findChild name with
  | some child => .ok child
  | none       => if node.mountedFs = [] then .ok (new name) else .error "Already has mounted fs"

/-- The child takes the place of the one of its name, or the end of the list. -/
@[grind =] def putChild (child : FsNode ι) : List (FsNode ι) → List (FsNode ι)
  | []      => [child]
  | c :: cs => if c.name = child.name then child :: cs else c :: putChild child cs

/-- What is done to a child through the pointer `getChild` returned. -/
def setChild (node child : FsNode ι) : FsNode ι :=
  ⟨node.name, putChild child node.children, node.mountedFs⟩

def hasMounts (node : FsNode ι) : Bool := node.mountedFs ≠ []

/-- `mount(fileSystem, priority)`. -/
def mount (fs : ι → FileSystem) (node : FsNode ι) (entry : FileSystemEntry ι) :
    Except String (FsNode ι) :=
  if node.children ≠ [] then
    .error "Already child directories"
  else if !(fs entry.fs).isReadOnly && node.mountedFs.any fun e => !(fs e.fs).isReadOnly then
    .error "Can not use multiple mutable file system at single mount point"
  else
    .ok ⟨node.name, node.children, node.mountedFs ++ [entry]⟩

/-- The loop of `VirtualFileSystemImpl::mount` from a node on.  It fails before it has made a new
node, or not at all: a failed mount leaves the tree as it was. -/
@[grind =] def mountAt (fs : ι → FileSystem) (entry : FileSystemEntry ι) :
    List Name → FsNode ι → Except String (FsNode ι)
  | [], node            => node.mount fs entry
  | name :: names, node =>
      match node.getChild name with
      | .error e  => .error e
      | .ok child =>
          match mountAt fs entry names child with
          | .error e  => .error e
          | .ok child => .ok (node.setChild child)

/-- The loop of `findFsNodeForPath` from a node on: how far the names lead, and the path there. -/
@[grind =] def walk : List Name → FsNode ι → FsPath → FsPath × FsNode ι
  | [], node, basePath            => (basePath, node)
  | name :: names, node, basePath =>
      match node.findChild name with
      | none      => (basePath, node)
      | some next => walk names next (basePath.appendInternal name)

end FsNode

structure VirtualFileSystemImpl (ι : Type) where
  root : FsNode ι := .new []

/-- One call of `mount`. -/
structure Mount (ι : Type) where
  path : FsPath
  fs : ι
  priority : Nat := 1

namespace VirtualFileSystemImpl

def mount (fs : ι → FileSystem) (vfs : VirtualFileSystemImpl ι) (m : Mount ι) :
    Except String (VirtualFileSystemImpl ι) :=
  match vfs.root.mountAt fs ⟨m.fs, m.priority⟩ m.path.splitElements with
  | .error e => .error e
  | .ok root => .ok ⟨root⟩

/-- The path of the node found and the node, or an empty path and no node. -/
def findFsNodeForPath (vfs : VirtualFileSystemImpl ι) (path : FsPath) :
    FsPath × Option (FsNode ι) :=
  let (basePath, fsNode) := vfs.root.walk path.splitElements .root
  if !basePath.equals path && !fsNode.hasMounts then (.empty, none) else (basePath, some fsNode)

/-- A sequence of calls of `mount`, all of which succeed. -/
@[grind =] def mountAll (fs : ι → FileSystem) :
    VirtualFileSystemImpl ι → List (Mount ι) → Option (VirtualFileSystemImpl ι)
  | vfs, []      => some vfs
  | vfs, m :: ms =>
      match vfs.mount fs m with
      | .error _ => none
      | .ok vfs  => mountAll fs vfs ms

end VirtualFileSystemImpl

/-! ### The tree after a sequence of mounts -/

namespace FsNode

variable {fs : ι → FileSystem} {entry : FileSystemEntry ι} {n n' : FsNode ι}

/-- The node the names lead to, when all of them are there. -/
@[grind =] def descend : List Name → FsNode ι → Option (FsNode ι)
  | [], node            => some node
  | name :: names, node => (node.findChild name).bind (descend names)

/-- What is mounted where the names lead. -/
def mountsAt (q : List Name) (node : FsNode ι) : List (FileSystemEntry ι) :=
  ((node.descend q).map mountedFs).getD []

/-- No node has both children and file systems. -/
def Exclusive (node : FsNode ι) : Prop :=
  ∀ q m, node.descend q = some m → m.children = [] ∨ m.mountedFs = []

theorem findChild_name {name : Name} {c : FsNode ι} (h : n.findChild name = some c) :
    c.name = name := by
  simpa using List.find?_some h

theorem find?_putChild (child : FsNode ι) (l : List (FsNode ι)) (name : Name) :
    (putChild child l).find? (fun c => c.name = name) =
      if name = child.name then some child else l.find? fun c => c.name = name := by
  induction l with
  | nil => by_cases h : name = child.name <;> simp [putChild, h, Ne.symm]
  | cons c l ih =>
      rw [putChild]
      by_cases hc : c.name = child.name
      · by_cases h : name = child.name
        · simp [hc, h]
        · simp [hc, h, Ne.symm h]
      · by_cases h : c.name = name
        · subst h
          simp [hc]
        · simp [hc, h, ih]

theorem findChild_setChild (child : FsNode ι) (name : Name) :
    (n.setChild child).findChild name =
      if name = child.name then some child else n.findChild name :=
  find?_putChild child n.children name

theorem setChild_children_ne (child : FsNode ι) : (n.setChild child).children ≠ [] := by
  show putChild child n.children ≠ []
  cases n.children with
  | nil => simp [putChild]
  | cons c cs => rw [putChild]; split <;> simp

/-- What `getChild` returns is the child there is, or a new one below a node without mounts. -/
theorem getChild_ok {name : Name} {c : FsNode ι} (h : n.getChild name = .ok c) :
    n.findChild name = some c ∨ n.findChild name = none ∧ n.mountedFs = [] ∧ c = new name := by
  rw [getChild] at h
  split at h
  · next child hf => exact .inl (hf.trans (congrArg some (Except.ok.inj h)))
  · next hf =>
      split at h
      · next hm => exact .inr ⟨hf, hm, (Except.ok.inj h).symm⟩
      · cases h

theorem getChild_name {name : Name} {c : FsNode ι} (h : n.getChild name = .ok c) :
    c.name = name := by
  rcases getChild_ok h with h | ⟨-, -, rfl⟩
  · exact findChild_name h
  · rfl

theorem mountAt_cons {name : Name} {names : List Name}
    (h : n.mountAt fs entry (name :: names) = .ok n') :
    ∃ c c', n.getChild name = .ok c ∧ c.mountAt fs entry names = .ok c' ∧ n' = n.setChild c' := by
  rw [mountAt] at h
  split at h
  · cases h
  · next c hc =>
      split at h
      · cases h
      · next c' hc' => exact ⟨c, c', hc, hc', (Except.ok.inj h).symm⟩

theorem mount_ok (h : n.mount fs entry = .ok n') :
    n.children = [] ∧ n' = ⟨n.name, [], n.mountedFs ++ [entry]⟩ := by
  rw [mount] at h
  split at h
  · cases h
  · next hc =>
      have hc : n.children = [] := by simpa using hc
      split at h
      · cases h
      · exact ⟨hc, by rw [← Except.ok.inj h, hc]⟩

theorem mountAt_name {key : List Name} (h : n.mountAt fs entry key = .ok n') :
    n'.name = n.name := by
  cases key with
  | nil => rw [(mount_ok h).2]; rfl
  | cons name names =>
      obtain ⟨c, c', -, -, rfl⟩ := mountAt_cons h
      rfl

theorem descend_new (name : Name) (q : List Name) :
    (new name : FsNode ι).descend q = if q = [] then some (new name) else none := by
  cases q <;> rfl

theorem descend_setChild {name : Name} {c c' : FsNode ι} (hc : n.getChild name = .ok c)
    (hn : c'.name = c.name) (a : Name) (q : List Name) :
    (n.setChild c').descend (a :: q) =
      if a = name then c'.descend q else n.descend (a :: q) := by
  rw [descend, findChild_setChild, hn, getChild_name hc]
  split
  · rfl
  · rfl

/-- What `getChild` returns leads where the node's own child of that name does. -/
theorem descend_getChild {name : Name} {c : FsNode ι} (hc : n.getChild name = .ok c)
    {q : List Name} (hq : q ≠ []) : n.descend (name :: q) = c.descend q := by
  rcases getChild_ok hc with hf | ⟨hf, -, rfl⟩
  · rw [descend, hf]; rfl
  · rw [descend, hf, descend_new, if_neg hq]; rfl

theorem mountsAt_getChild {name : Name} {c : FsNode ι} (hc : n.getChild name = .ok c)
    (q : List Name) : n.mountsAt (name :: q) = c.mountsAt q := by
  rcases getChild_ok hc with hf | ⟨hf, -, rfl⟩
  · rw [mountsAt, descend, hf]; rfl
  · rw [mountsAt, mountsAt, descend, hf, descend_new]
    split <;> rfl

theorem Exclusive.getChild {name : Name} {c : FsNode ι} (hx : n.Exclusive)
    (hc : n.getChild name = .ok c) : c.Exclusive := by
  intro q m hm
  rcases getChild_ok hc with hf | ⟨-, -, rfl⟩
  · exact hx (name :: q) m (by rw [descend, hf]; exact hm)
  · rw [descend_new] at hm
    split at hm
    · exact .inl (Option.some.inj hm ▸ rfl)
    · cases hm

theorem descend_append (q t : List Name) :
    n.descend (q ++ t) = (n.descend q).bind (descend t) := by
  induction q generalizing n with
  | nil => rfl
  | cons a q ih =>
      rw [List.cons_append, descend, descend]
      cases n.findChild a with
      | none => rfl
      | some c => exact ih

/-- The walk stops where all names are used up, or where there is no child of the next one. -/
theorem walk_eq (names : List Name) (basePath : FsPath) :
    ∃ q t m, names = q ++ t ∧ n.descend q = some m ∧ (∀ a, t.head? = some a →
      m.findChild a = none) ∧ n.walk names basePath = (q.foldl .appendInternal basePath, m) := by
  induction names generalizing n basePath with
  | nil => exact ⟨[], [], n, rfl, rfl, by simp, rfl⟩
  | cons name names ih =>
      rw [walk]
      cases hf : n.findChild name with
      | none => exact ⟨[], name :: names, n, rfl, rfl, by simpa using hf, rfl⟩
      | some next =>
          obtain ⟨q, t, m, rfl, hd, ht, hw⟩ := ih (n := next) (basePath.appendInternal name)
          exact ⟨name :: q, t, m, rfl, by rw [descend, hf]; exact hd, ht, hw⟩

/-- The node at the mount point gets the file system. -/
theorem descend_mountAt_self {key : List Name} (h : n.mountAt fs entry key = .ok n') :
    ∃ m, n'.descend key = some m ∧ m.children = [] ∧
      m.mountedFs = n.mountsAt key ++ [entry] := by
  induction key generalizing n n' with
  | nil =>
      obtain ⟨-, rfl⟩ := mount_ok h
      exact ⟨_, rfl, rfl, rfl⟩
  | cons name names ih =>
      obtain ⟨c, c', hc, hc', rfl⟩ := mountAt_cons h
      rw [descend_setChild hc (mountAt_name hc'), if_pos rfl, mountsAt_getChild hc]
      exact ih hc'

/-- A node on the way is there afterwards, with children and without mounts. -/
theorem descend_mountAt_prefix {key q : List Name} (hx : n.Exclusive)
    (h : n.mountAt fs entry key = .ok n') (hq : q <+: key) (hne : q ≠ key) :
    ∃ m, n'.descend q = some m ∧ m.children ≠ [] ∧ m.mountedFs = [] ∧ n.mountsAt q = [] := by
  induction key generalizing n n' q with
  | nil => exact absurd (List.prefix_nil.mp hq) hne
  | cons name names ih =>
      obtain ⟨c, c', hc, hc', rfl⟩ := mountAt_cons h
      cases q with
      | nil =>
          have hm : n.mountedFs = [] := by
            rcases getChild_ok hc with hf | ⟨-, hm, -⟩
            · refine (hx [] n rfl).resolve_left fun hch => ?_
              simp [findChild, hch] at hf
            · exact hm
          exact ⟨_, rfl, setChild_children_ne c', hm, hm⟩
      | cons a q =>
          obtain ⟨rfl, hq'⟩ := List.cons_prefix_cons.mp hq
          rw [descend_setChild hc (mountAt_name hc'), if_pos rfl, mountsAt_getChild hc]
          exact ih (hx.getChild hc) hc' hq' fun e => hne (e ▸ rfl)

/-- Elsewhere nothing changes. -/
theorem descend_mountAt_other {key q : List Name} (h : n.mountAt fs entry key = .ok n')
    (hq : ¬ q <+: key) : n'.descend q = n.descend q := by
  induction key generalizing n n' q with
  | nil =>
      obtain ⟨hch, rfl⟩ := mount_ok h
      cases q with
      | nil => exact absurd List.nil_prefix hq
      | cons a q => rw [descend, descend, findChild, findChild, hch]; rfl
  | cons name names ih =>
      obtain ⟨c, c', hc, hc', rfl⟩ := mountAt_cons h
      cases q with
      | nil => exact absurd List.nil_prefix hq
      | cons a q =>
          rw [descend_setChild hc (mountAt_name hc')]
          split
          · next ha =>
              subst ha
              have hq : ¬ q <+: names := fun h => hq (List.cons_prefix_cons.mpr ⟨rfl, h⟩)
              have hne : q ≠ [] := fun h => hq (h ▸ List.nil_prefix)
              rw [ih hc' hq, descend_getChild hc hne]
          · rfl

end FsNode

/-- The elements of the mount point. -/
def Mount.key (m : Mount ι) : List Name := m.path.splitElements

def Mount.entry (m : Mount ι) : FileSystemEntry ι := ⟨m.fs, m.priority⟩

/-- What the tree is after the mounts `ms`. -/
structure Table (ms : List (Mount ι)) (root : FsNode ι) : Prop where
  descend_iff : ∀ q, (root.descend q).isSome ↔ q = [] ∨ ∃ m ∈ ms, q <+: m.key
  mountsAt_eq : ∀ q, root.mountsAt q = (ms.filter fun m => m.key = q).map Mount.entry
  exclusive : root.Exclusive

theorem table_nil : Table [] (FsNode.new [] : FsNode ι) where
  descend_iff q := by rw [FsNode.descend_new]; split <;> simp [*]
  mountsAt_eq q := by cases q <;> rfl
  exclusive q m hm := by
    rw [FsNode.descend_new] at hm
    split at hm
    · exact .inl (Option.some.inj hm ▸ rfl)
    · cases hm

theorem Table.concat {fs : ι → FileSystem} {ms : List (Mount ι)} {root root' : FsNode ι}
    {m : Mount ι} (ht : Table ms root) (h : root.mountAt fs m.entry m.key = .ok root') :
    Table (ms ++ [m]) root' := by
  obtain ⟨k, hk, hkc, hkm⟩ := FsNode.descend_mountAt_self h
  have hpre := fun q hq hne => FsNode.descend_mountAt_prefix (q := q) ht.exclusive h hq hne
  have hoth := fun q hq => FsNode.descend_mountAt_other (q := q) h hq
  refine ⟨fun q => ?_, fun q => ?_, fun q k' hk' => ?_⟩
  · by_cases hq : q <+: m.key
    · have hs : (root'.descend q).isSome := by
        by_cases hqk : q = m.key
        · rw [hqk, hk]; rfl
        · obtain ⟨k', hk', -⟩ := hpre q hq hqk
          rw [hk']; rfl
      simp only [hs, true_iff]
      exact .inr ⟨m, by simp, hq⟩
    · rw [hoth q hq, ht.descend_iff]
      simp [or_and_right, exists_or, hq]
  · rw [List.filter_append, List.map_append, ← ht.mountsAt_eq]
    by_cases hqk : q = m.key
    · subst hqk
      simp [FsNode.mountsAt, hk, hkm]
    · have hne : ¬ m.key = q := fun e => hqk e.symm
      have he : root'.mountsAt q = root.mountsAt q := by
        by_cases hq : q <+: m.key
        · obtain ⟨k', hk', -, hm', hm⟩ := hpre q hq hqk
          rw [hm, FsNode.mountsAt, hk']
          exact hm'
        · rw [FsNode.mountsAt, hoth q hq]; rfl
      simp [hne, he]
  · by_cases hq : q <+: m.key
    · by_cases hqk : q = m.key
      · subst hqk
        exact .inl (Option.some.inj (hk.symm.trans hk') ▸ hkc)
      · obtain ⟨k'', hk'', -, hm', -⟩ := hpre q hq hqk
        exact .inr (Option.some.inj (hk''.symm.trans hk') ▸ hm')
    · exact ht.exclusive q k' (hoth q hq ▸ hk')

theorem VirtualFileSystemImpl.table_mountAll {fs : ι → FileSystem}
    {vfs vfs' : VirtualFileSystemImpl ι} {ms₀ ms : List (Mount ι)} (ht : Table ms₀ vfs.root)
    (h : vfs.mountAll fs ms = some vfs') :
    Table (ms₀ ++ ms) vfs'.root := by
  induction ms generalizing ms₀ vfs with
  | nil => rwa [List.append_nil, ← Option.some.inj h]
  | cons m ms ih =>
      rw [mountAll] at h
      split at h
      · cases h
      · next vfs₁ h₁ =>
          rw [mount] at h₁
          split at h₁
          · cases h₁
          · next root h₂ =>
              rw [List.append_cons]
              exact ih (Except.ok.inj h₁ ▸ ht.concat h₂) h

/-- After a sequence of mounts into a fresh virtual file system. -/
theorem VirtualFileSystemImpl.table {fs : ι → FileSystem} {vfs : VirtualFileSystemImpl ι}
    {ms : List (Mount ι)} (h : mountAll fs {} ms = some vfs) : Table ms vfs.root :=
  table_mountAll table_nil h

/-- A mount point below another one: the two are the same. -/
theorem Table.antichain {ms : List (Mount ι)} {root : FsNode ι} (ht : Table ms root)
    {m₁ m₂ : Mount ι} (h₁ : m₁ ∈ ms) (h₂ : m₂ ∈ ms) (h : m₁.key <+: m₂.key) :
    m₁.key = m₂.key := by
  have hm : m₁.entry ∈ root.mountsAt m₁.key := by
    rw [ht.mountsAt_eq]
    exact List.mem_map_of_mem (List.mem_filter.mpr ⟨h₁, by simp⟩)
  obtain ⟨t, hkey⟩ := h
  have hs := (ht.descend_iff m₂.key).mpr (.inr ⟨m₂, h₂, List.prefix_rfl⟩)
  rw [← hkey, FsNode.descend_append] at hs
  cases hd : root.descend m₁.key with
  | none => simp [hd] at hs
  | some k =>
      have hk : k.mountedFs ≠ [] := fun h => by simp [FsNode.mountsAt, hd, h] at hm
      have hc := (ht.exclusive _ k hd).resolve_right hk
      cases t with
      | nil => rw [← hkey, List.append_nil]
      | cons a t => simp [hd, FsNode.descend, FsNode.findChild, hc] at hs

/-- How far the names of a path lead in the tree. -/
theorem Table.walk {ms : List (Mount ι)} {root : FsNode ι} (ht : Table ms root)
    (names : List Name) (basePath : FsPath) :
    ∃ q t n, names = q ++ t ∧ n.mountedFs = (ms.filter fun m => m.key = q).map Mount.entry ∧
      root.walk names basePath = (q.foldl .appendInternal basePath, n) ∧
      root.descend names = (if t = [] then some n else none) ∧
      (q = [] ∨ ∃ m ∈ ms, q <+: m.key) ∧ ∀ m ∈ ms, ∀ p, p <+: m.key → p <+: names → p <+: q := by
  obtain ⟨q, t, n, rfl, hd, hf, hw⟩ := FsNode.walk_eq (n := root) names basePath
  have hm := ht.mountsAt_eq q
  rw [FsNode.mountsAt, hd] at hm
  have hq := (ht.descend_iff q).mp (by rw [hd]; rfl)
  have hds : root.descend (q ++ t) = if t = [] then some n else none := by
    rw [FsNode.descend_append, hd]
    cases t with
    | nil => rfl
    | cons b t => simp [FsNode.descend, hf b rfl]
  refine ⟨q, t, n, rfl, hm, hw, hds, hq, fun m hmem p hp hpt => ?_⟩
  rcases List.prefix_or_prefix_of_prefix hpt (List.prefix_append q t) with h | ⟨u, rfl⟩
  · exact h
  cases u with
  | nil => simp
  | cons b u =>
      -- the walk went on for `b`, as the mount point has a node there
      obtain ⟨v, hv⟩ := hpt
      rw [List.append_assoc, List.append_cancel_left_eq] at hv
      have hs := (ht.descend_iff (q ++ [b])).mpr
        (.inr ⟨m, hmem, ((List.prefix_append_right_inj q).mpr (by simp)).trans hp⟩)
      rw [FsNode.descend_append, hd] at hs
      simp [FsNode.descend, hf b (by rw [← hv]; rfl)] at hs

end MyEngine.Io
