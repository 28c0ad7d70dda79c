import MyEngine.Io.Exists

/-!
# Io — DirIterator

The directory iterator of the virtual file system: over the children of an inner node, or over
the file systems mounted at one, each gone through with its own iterator before the next one that
has the directory is looked for, by the identity of the current one.

Looking for the next file system may go round without end, and so may a listing: both take fuel,
and a listing that ends is one that some fuel is enough for.
-/

namespace MyEngine.Io

variable {ι : Type} [DecidableEq ι]

/-! ### The iterator of a mounted file system -/

/-- `openDirIterator`: the iterator, here the entries still to come, and the first entry; neither
when the directory is empty. -/
def FileSystem.openDirIterator (f : FileSystem) (path : FsPath) :
    Option (List FsEntry × FsEntry) :=
  match f.dirEntries path with
  | []      => none
  | e :: es => some (es, e)

/-- `incrementDirIterator`: the next entry, if there is one. -/
def incrementDirIterator : List FsEntry → Option (List FsEntry × FsEntry)
  | []      => none
  | e :: es => some (es, e)

namespace FsNode

/-- The entry after the first one of that file system. -/
@[grind =] def nextMounted (current : ι) : List (FileSystemEntry ι) → Option ι
  | []      => none
  | e :: es => if e.fs = current then es.head?.map (·.fs) else nextMounted current es

/-- `getNextMountedFs(current)`. -/
def getNextMountedFs (node : FsNode ι) : Option ι → Option ι
  | none         => node.mountedFs.head?.map (·.fs)
  | some current => nextMounted current node.mountedFs

/-- `getNextChild(current)`, a child being known by its place. -/
def getNextChild (node : FsNode ι) : Option Nat → Option Nat
  | none         => if 0 < node.children.length then some 0 else none
  | some current => if current + 1 < node.children.length then some (current + 1) else none

end FsNode

/-! ### `InnerDirIteratorImpl` -/

structure InnerDirIteratorImpl (ι : Type) where
  basePath : FsPath
  dir : FsNode ι
  current : Option Nat

namespace InnerDirIteratorImpl

def new (basePath : FsPath) (dir : FsNode ι) : InnerDirIteratorImpl ι :=
  ⟨basePath, dir, dir.getNextChild none⟩

def increment (it : InnerDirIteratorImpl ι) : InnerDirIteratorImpl ι :=
  match it.current with
  | none   => it
  | some i => { it with current := it.dir.getNextChild (some i) }

/-- `getCurrent`, or nothing at the end. -/
def getCurrent (it : InnerDirIteratorImpl ι) : Option FsEntry :=
  (it.current.bind fun i => it.dir.children[i]?).map fun c =>
    ⟨(FsPath.ofString it.basePath.path).appendInternal c.name, .directory, 0, 0⟩

end InnerDirIteratorImpl

/-! ### `MultiFsDirIteratorImpl` -/

structure MultiFsDirIteratorImpl (ι : Type) where
  basePath : FsPath
  relativePath : FsPath
  dir : FsNode ι
  /-- The current file system, its iterator and the current entry; nothing at the end. -/
  iter : Option (ι × List FsEntry × FsEntry)

namespace MultiFsDirIteratorImpl

variable (fs : ι → FileSystem)

/-- `getNextFsContainingPath`, from the current file system on. -/
@[grind =]
def getNextFsContainingPath (it : MultiFsDirIteratorImpl ι) : Nat → Option ι → Option (Option ι)
  | 0, _            => none
  | fuel + 1, current =>
      match it.dir.getNextMountedFs current with
      | none   => some none
      | some f =>
          if (fs f).pathExists it.relativePath (some .directory) then some (some f)
          else getNextFsContainingPath it fuel (some f)

/-- The entry as the virtual file system shows it. -/
def rebase (basePath : FsPath) (e : FsEntry) : FsEntry :=
  { e with path := basePath.div e.path }

/-- `getNextFsIterator`. -/
def getNextFsIterator (it : MultiFsDirIteratorImpl ι) (fuel : Nat) (current : Option ι) :
    Option (MultiFsDirIteratorImpl ι) :=
  match it.getNextFsContainingPath fs fuel current with
  | none          => none
  | some none     => some { it with iter := none }
  | some (some f) =>
      match (fs f).openDirIterator it.relativePath with
      | none           => some { it with iter := none }
      | some (rest, e) => some { it with iter := some (f, rest, rebase it.basePath e) }

def new (fuel : Nat) (basePath relativePath : FsPath) (dir : FsNode ι) :
    Option (MultiFsDirIteratorImpl ι) :=
  getNextFsIterator fs ⟨basePath, relativePath, dir, none⟩ fuel none

def increment (fuel : Nat) (it : MultiFsDirIteratorImpl ι) : Option (MultiFsDirIteratorImpl ι) :=
  match it.iter with
  | none              => some it
  | some (f, rest, _) =>
      match incrementDirIterator rest with
      | some (rest, e) => some { it with iter := some (f, rest, rebase it.basePath e) }
      | none           => it.getNextFsIterator fs fuel (some f)

def getCurrent (it : MultiFsDirIteratorImpl ι) : Option FsEntry :=
  it.iter.map fun i => i.2.2

end MultiFsDirIteratorImpl

/-! ### The virtual file system's iterator -/

inductive DirIteratorImpl (ι : Type) where
  | inner (it : InnerDirIteratorImpl ι)
  | multi (it : MultiFsDirIteratorImpl ι)

namespace DirIteratorImpl

def increment (fs : ι → FileSystem) (fuel : Nat) : DirIteratorImpl ι → Option (DirIteratorImpl ι)
  | inner it => some (inner it.increment)
  | multi it => (it.increment fs fuel).map multi

def getCurrent : DirIteratorImpl ι → Option FsEntry
  | inner it => it.getCurrent
  | multi it => it.getCurrent

end DirIteratorImpl

namespace VirtualFileSystemImpl

variable (fs : ι → FileSystem)

/-- `openDirIterator(path)`: an iterator, whose current entry is nothing at the end. -/
def openDirIterator (vfs : VirtualFileSystemImpl ι) (fuel : Nat) (path : FsPath) :
    Option (Except String (DirIteratorImpl ι)) :=
  match vfs.findFsNodeForPath path with
  | (_, none)               => some (.error "Directory does not exists")
  | (basePath, some fsNode) =>
      if !fsNode.hasMounts then
        some (.ok (.inner (.new basePath fsNode)))
      else
        (MultiFsDirIteratorImpl.new fs fuel basePath (path.getRelativePath basePath) fsNode).map
          fun it => .ok (.multi it)

/-- The entries from the current one on, by incrementing until the end is reported. -/
@[grind =] def entriesFrom (inner : Nat) : Nat → DirIteratorImpl ι → Option (List FsEntry)
  | 0, _         => none
  | fuel + 1, it =>
      match it.getCurrent with
      | none   => some []
      | some e =>
          match it.increment fs inner with
          | none    => none
          | some it => (entriesFrom inner fuel it).map (e :: ·)

/-- A directory listed from opening to the end. -/
def listDirectory (vfs : VirtualFileSystemImpl ι) (fuel : Nat) (path : FsPath) :
    Option (Except String (List FsEntry)) :=
  match vfs.openDirIterator fs fuel path with
  | none              => none
  | some (.error e)   => some (.error e)
  | some (.ok it)     => (entriesFrom fs fuel fuel it).map .ok

end VirtualFileSystemImpl

end MyEngine.Io
