import Mathlib.Logic.Function.Basic
import MyEngine.Io.DirIterator
import MyEngine.Io.FsPathCopies
import MyEngine.Io.FsPathRelative
import MyEngine.Io.OpenFile

/-!
# Io — NativeFileSystem

`WinNativeFileSystem`, of `win_native_file_system.cpp`: the directories of a drive as the iterators
of a `FileSystem`, each over a search handle of the system.

* `Volume`: what the system says of a drive.
* `State`: the search handles that are open, and the iterators that are not deleted.
* `openDirIterator`, `incrementDirIterator`, `closeDirIterator`.
* `toFileSystem`: the directories as lists of entries, which is how a virtual file system has them.
* `Related`: each iterator has a handle of its own, and still to give what its list has.
* `native_refines`: every client is given the entries of the lists, and no handle is lost.
-/

namespace MyEngine.Io.Native

open Function (update)

/-! ### The system -/

/-- `WIN32_FIND_DATAW`, as far as it is read. -/
structure FindData where
  fileName : Name
  directory : Bool
  fileSizeHigh : BitVec 32
  fileSizeLow : BitVec 32
  deriving DecidableEq

/-- `namesToSkip`. -/
def namesToSkip : List Name := [['.'], ['.', '.']]

/-- `GetFileAttributesW`: whether there is a directory, if there is anything; and what a search for
the names in a directory goes through.  No name consists of spaces. -/
structure Volume where
  attributes : NativePath → Option Bool
  found : NativePath → List FindData
  found_name : ∀ path, ∀ d ∈ found path, ∃ c ∈ d.fileName, c ≠ ' ' ∧ c ≠ '/'

/-- The file system; `resolve` is `resolveToNativePathNoCheck`, by `std::filesystem`. -/
structure WinNativeFileSystem where
  resolve : FsPath → NativePath
  isReadOnly : Bool

/-- `DirIteratorData`. -/
structure DirIteratorData where
  hFind : ℕ
  basePath : FsPath
  deriving DecidableEq

/-- The open search handles, with what they have still to find; the iterators, by their addresses;
and how often a handle or an iterator was used that is not there. -/
structure State where
  finds : ℕ → Option (List FindData) := fun _ => none
  nextHandle : ℕ := 0
  iterators : ℕ → Option DirIteratorData := fun _ => none
  nextPtr : ℕ := 0
  faults : ℕ := 0

namespace State

variable (s : State)

def setFind (hFind : ℕ) (rest : Option (List FindData)) : State :=
  { s with finds := update s.finds hFind rest }

@[simp] theorem setFind_finds_self (hFind : ℕ) (rest : Option (List FindData)) :
    (s.setFind hFind rest).finds hFind = rest := Function.update_self ..

theorem setFind_finds_of_ne {hFind hFind' : ℕ} (h : hFind' ≠ hFind)
    (rest : Option (List FindData)) : (s.setFind hFind rest).finds hFind' = s.finds hFind' :=
  Function.update_of_ne h ..

@[simp] theorem setFind_setFind (hFind : ℕ) (rest rest' : Option (List FindData)) :
    (s.setFind hFind rest).setFind hFind rest' = s.setFind hFind rest' :=
  congrArg (fun finds => { s with finds := finds }) (Function.update_idem ..)

theorem setFind_self {hFind : ℕ} {rest : Option (List FindData)} (h : s.finds hFind = rest) :
    s.setFind hFind rest = s :=
  congrArg (fun finds => { s with finds := finds }) (Function.update_eq_self_iff.2 h.symm)

/-- `FindFirstFileW`. -/
def findFirst (vol : Volume) (path : NativePath) : State × Option (ℕ × FindData) :=
  match vol.found path with
  | []      => (s, none)
  | d :: ds =>
      ({ s with nextHandle := s.nextHandle + 1 }.setFind s.nextHandle (some ds),
        some (s.nextHandle, d))

/-- `FindNextFileW`. -/
def findNext (hFind : ℕ) : State × Option FindData :=
  match s.finds hFind with
  | none           => ({ s with faults := s.faults + 1 }, none)
  | some []        => (s, none)
  | some (d :: ds) => (s.setFind hFind (some ds), some d)

/-- `FindClose`. -/
def findClose (hFind : ℕ) : State :=
  match s.finds hFind with
  | none   => { s with faults := s.faults + 1 }
  | some _ => s.setFind hFind none

end State

/-- `skipNotNeededEntries`, with `rounds` for the loop. -/
def skipNotNeededEntries (hFind : ℕ) : (rounds : ℕ) → State → FindData → State × Option FindData
  | 0, s, _                  => (s, none)
  | rounds + 1, s, findData =>
      if findData.fileName ∉ namesToSkip then (s, some findData)
      else
        match s.findNext hFind with
        | (s, none)          => (s, none)
        | (s, some findData) => skipNotNeededEntries hFind rounds s findData

/-- As many rounds as the search may go: it ends before. -/
def State.rounds (s : State) (hFind : ℕ) : ℕ := ((s.finds hFind).getD []).length + 1

/-- `win32FindDataToFsEntry`. -/
def win32FindDataToFsEntry (basePath : FsPath) (findData : FindData) : FsEntry where
  path := (basePath.copy.appendInternal findData.fileName).copy
  kind := if findData.directory then .directory else .file
  size := if findData.directory then 0
    else (findData.fileSizeHigh.setWidth 64 <<< 32 ||| findData.fileSizeLow.setWidth 64).toNat

/-- What is found and not skipped. -/
def needed (l : List FindData) : List FindData := l.filter fun d => d.fileName ∉ namesToSkip

/-- An entry that is moved: its path is. -/
def moved (e : FsEntry) : FsEntry := { e with path := e.path.move }

namespace WinNativeFileSystem

variable (fs : WinNativeFileSystem) (vol : Volume)

/-- `exists`. -/
def pathExists (path : FsPath) (kind : Option FsEntryKind) : Bool :=
  let fullPath := fs.resolve path
  if fullPath = [] then false
  else
    match vol.attributes fullPath with
    | none           => false
    | some directory =>
        match kind with
        | none      => true
        | some kind => directory = decide (kind = .directory)

/-- `resolveToNativePath`: of what is there. -/
def resolveToNativePath (path : FsPath) : NativePath :=
  if (vol.attributes (fs.resolve path)).isSome then fs.resolve path else []

/-- `openFile`: the arguments of the `WinFile` that is made. -/
def openFile (vfsPath : FsPath) (accessMode : AccessModeFlag) (openMode : OpenFileMode) :
    Option (NativePath × AccessModeFlag × OpenFileMode) :=
  let fullPath := fs.resolve vfsPath
  if fullPath = [] then none
  else if (!accessMode.write || openMode = .openExisting) &&
      vol.attributes fullPath ≠ some false then none
  else some (fullPath, accessMode, openMode)

/-- `openDirIterator`: the address of the iterator, and the first entry, which is moved. -/
def openDirIterator (s : State) (path : FsPath) : State × Option (ℕ × FsEntry) :=
  let searchPath := fs.resolve path
  if searchPath = [] then (s, none)
  else if vol.attributes searchPath ≠ some true then (s, none)
  else
    match s.findFirst vol searchPath with
    | (s, none)                   => (s, none)
    | (s, some (hFind, findData)) =>
        match skipNotNeededEntries hFind (s.rounds hFind) s findData with
        | (s, none)          => (s.findClose hFind, none)
        | (s, some findData) =>
            ({ s with
              iterators := update s.iterators s.nextPtr (some ⟨hFind, path.copy⟩)
              nextPtr := s.nextPtr + 1 },
              some (s.nextPtr, moved (win32FindDataToFsEntry path findData)))

/-- The directories as lists: what the search finds, but for the names that are skipped. -/
def dirEntries (path : FsPath) : List FsEntry :=
  let searchPath := fs.resolve path
  if searchPath = [] ∨ vol.attributes searchPath ≠ some true then []
  else
    match needed (vol.found searchPath) with
    | []      => []
    | d :: ds => moved (win32FindDataToFsEntry path d) :: ds.map (win32FindDataToFsEntry path.copy)

end WinNativeFileSystem

/-- `incrementDirIterator`. -/
def incrementDirIterator (s : State) (ptr : ℕ) : State × Option FsEntry :=
  match s.iterators ptr with
  | none      => ({ s with faults := s.faults + 1 }, none)
  | some data =>
      match s.findNext data.hFind with
      | (s, none)          => (s, none)
      | (s, some findData) =>
          let (s, found) := skipNotNeededEntries data.hFind (s.rounds data.hFind) s findData
          (s, found.map (win32FindDataToFsEntry data.basePath))

/-- `closeDirIterator`. -/
def closeDirIterator (s : State) (ptr : ℕ) : State :=
  match s.iterators ptr with
  | none      => { s with faults := s.faults + 1 }
  | some data => { s.findClose data.hFind with iterators := update s.iterators ptr none }

/-! ### Clients -/

/-- What a client of the file system does; an iterator is known by its address. -/
inductive Action where
  | openDir (path : FsPath)
  | increment (ptr : ℕ)
  | close (ptr : ℕ)

/-- What it is given. -/
inductive Answer where
  | opened (result : Option (ℕ × FsEntry))
  | entry (result : Option FsEntry)
  | closed
  deriving DecidableEq

def step (fs : WinNativeFileSystem) (vol : Volume) (s : State) : Action → State × Answer
  | .openDir path  => ((fs.openDirIterator vol s path).1, .opened (fs.openDirIterator vol s path).2)
  | .increment ptr => ((incrementDirIterator s ptr).1, .entry (incrementDirIterator s ptr).2)
  | .close ptr     => (closeDirIterator s ptr, .closed)

/-- The file system as a virtual one has it: the iterators are the entries still to come. -/
structure Lists where
  live : ℕ → Option (List FsEntry) := fun _ => none
  nextPtr : ℕ := 0

/-- The step with the entries of a `FileSystem`. -/
def Lists.step (f : FileSystem) (a : Lists) : Action → Lists × Answer
  | .openDir path =>
      match f.openDirIterator path with
      | none           => (a, .opened none)
      | some (rest, e) =>
          ({ live := update a.live a.nextPtr (some rest), nextPtr := a.nextPtr + 1 },
            .opened (some (a.nextPtr, e)))
  | .increment ptr =>
      match Io.incrementDirIterator ((a.live ptr).getD []) with
      | none           => (a, .entry none)
      | some (rest, e) => ({ a with live := update a.live ptr (some rest) }, .entry (some e))
  | .close ptr => ({ a with live := update a.live ptr none }, .closed)

/-- A client has an iterator from when it is opened until it is closed. -/
def Lists.Has (a : Lists) : Action → Prop
  | .openDir _                  => True
  | .increment ptr | .close ptr => a.live ptr ≠ none

/-- The run of a client, with its answers. -/
def run {σ : Type} (step : σ → Action → σ × Answer) (s : σ) : List Action → σ × List Answer
  | []      => (s, [])
  | a :: as => ((run step (step s a).1 as).1, (step s a).2 :: (run step (step s a).1 as).2)

/-- The client has what it uses, all along. -/
def Lists.Uses (f : FileSystem) (a : Lists) : List Action → Prop
  | []               => True
  | action :: actions => a.Has action ∧ (a.step f action).1.Uses f actions

/-! ### Searches -/

/-- The search goes on to the first entry that is not skipped, if there are rounds for it. -/
theorem skipNotNeededEntries_eq {hFind rounds : ℕ} {s : State} (findData : FindData)
    {rest : List FindData} (hs : s.finds hFind = some rest) (hrounds : rest.length < rounds) :
    ∃ rest', needed rest' = (needed (findData :: rest)).tail ∧
      skipNotNeededEntries hFind rounds s findData =
        (s.setFind hFind (some rest'), (needed (findData :: rest)).head?) := by
  induction rest generalizing rounds s findData with
  | nil =>
      obtain ⟨rounds, rfl⟩ := Nat.exists_eq_succ_of_ne_zero (Nat.ne_of_gt hrounds)
      refine ⟨[], ?_, ?_⟩
      · by_cases hname : findData.fileName ∈ namesToSkip <;> simp [needed, hname]
      · rw [skipNotNeededEntries, s.setFind_self hs]
        by_cases hname : findData.fileName ∈ namesToSkip
        · simp [hname, State.findNext, hs, needed]
        · simp [hname, needed]
  | cons d rest ih =>
      obtain ⟨rounds, rfl⟩ := Nat.exists_eq_succ_of_ne_zero (Nat.ne_zero_of_lt hrounds)
      by_cases hname : findData.fileName ∈ namesToSkip
      · have hlt : rest.length < rounds := Nat.lt_of_succ_lt_succ hrounds
        obtain ⟨rest', hrest', hskip⟩ := ih d (s.setFind_finds_self hFind (some rest)) hlt
        have hcons : needed (findData :: d :: rest) = needed (d :: rest) := by
          rw [needed, List.filter_cons_of_neg (by simpa using hname), needed]
        refine ⟨rest', hcons ▸ hrest', ?_⟩
        rw [skipNotNeededEntries, if_neg (not_not_intro hname), State.findNext, hs, hcons]
        dsimp only
        rw [hskip, State.setFind_setFind]
      · have hcons : needed (findData :: d :: rest) = findData :: needed (d :: rest) := by
          rw [needed, List.filter_cons_of_pos (by simpa using hname), needed]
        refine ⟨d :: rest, by rw [hcons, List.tail_cons], ?_⟩
        rw [skipNotNeededEntries, if_pos hname, s.setFind_self hs, hcons, List.head?_cons]

theorem rounds_gt {s : State} {hFind : ℕ} {rest : List FindData} (hs : s.finds hFind = some rest) :
    rest.length < s.rounds hFind := by
  rw [State.rounds, hs, Option.getD_some]
  exact Nat.lt_succ_self _

/-- A search that is begun is at its first entry that is not skipped. -/
theorem skipNotNeededEntries_setFind (s : State) (hFind : ℕ) (d : FindData) (ds : List FindData) :
    ∃ rest, needed rest = (needed (d :: ds)).tail ∧
      skipNotNeededEntries hFind ((s.setFind hFind (some ds)).rounds hFind)
          (s.setFind hFind (some ds)) d =
        (s.setFind hFind (some rest), (needed (d :: ds)).head?) := by
  have hs := s.setFind_finds_self hFind (some ds)
  obtain ⟨rest, hrest, hskip⟩ := skipNotNeededEntries_eq d hs (rounds_gt hs)
  rw [State.setFind_setFind] at hskip
  exact ⟨rest, hrest, hskip⟩

/-! ### Entries -/

theorem mem_dropWhile_slash {c : Char} {name : List Char} (hc : c ∈ name) (hne : c ≠ '/') :
    c ∈ name.dropWhile (· = '/') := by
  induction name with
  | nil => cases hc
  | cons d name ih =>
      by_cases hd : d = '/'
      · rw [List.dropWhile_cons_of_pos (by simpa using hd)]
        rcases List.mem_cons.1 hc with rfl | hc
        · exact absurd hd hne
        · exact ih hc
      · rwa [List.dropWhile_cons_of_neg (by simpa using hd)]

theorem appendInternal_ne_of_name (q : FsPath) {name : Name} (h : ∃ c ∈ name, c ≠ ' ' ∧ c ≠ '/') :
    q.appendInternal name ≠ FsPath.empty := by
  by_cases hq : q = FsPath.empty
  · obtain ⟨c, hc, hspace, hslash⟩ := h
    have hstrip : c ∈ FsPath.stripSlashes name :=
      List.mem_reverse.2 (mem_dropWhile_slash
        (List.mem_reverse.2 (mem_dropWhile_slash hc hslash)) hslash)
    subst hq
    rw [FsPath.appendInternal, if_neg (List.ne_nil_of_mem hstrip),
      if_pos (show FsPath.empty.path = [] from rfl), ne_eq, FsPath.ofString_eq_empty_iff]
    exact fun hall => hspace (hall c hstrip)
  · exact FsPath.appendInternal_ne_empty hq name

theorem copy_ne_empty {p : FsPath} (hp : p ≠ FsPath.empty) : p.copy ≠ FsPath.empty := by
  have hne : p.path ≠ [] := fun h => hp (FsPath.ext h)
  obtain ⟨c, rest, hc⟩ := List.exists_cons_of_ne_nil hne
  rw [FsPath.copy, ne_eq, FsPath.ofString_eq_empty_iff, hc]
  intro h
  -- the first character of a path is no space
  have hhead := p.settled.head_ne
  rw [hc] at hhead
  exact hhead (congrArg some (h c List.mem_cons_self))

theorem isEmpty_eq_false {p : FsPath} (hp : p ≠ FsPath.empty) : p.isEmpty = false := by
  rw [FsPath.isEmpty, decide_eq_false_iff_not]
  exact fun h => hp (FsPath.ext h)

theorem isEmpty_entry (basePath : FsPath) {d : FindData} (h : ∃ c ∈ d.fileName, c ≠ ' ' ∧ c ≠ '/') :
    (win32FindDataToFsEntry basePath d).isEmpty = false ∧
      (moved (win32FindDataToFsEntry basePath d)).isEmpty = false := by
  have hpath := copy_ne_empty (appendInternal_ne_of_name basePath.copy h)
  exact ⟨isEmpty_eq_false hpath, isEmpty_eq_false (copy_ne_empty hpath)⟩

/-- The file system, for a virtual one that it is mounted in. -/
def WinNativeFileSystem.toFileSystem (fs : WinNativeFileSystem) (vol : Volume) :
    OpenFileSystem (NativePath × AccessModeFlag × OpenFileMode) where
  isReadOnly := fs.isReadOnly
  pathExists := fs.pathExists vol
  dirEntries := fs.dirEntries vol
  dirEntries_ne path e he := by
    rw [WinNativeFileSystem.dirEntries] at he
    split at he
    · cases he
    · have hname : ∀ d ∈ needed (vol.found (fs.resolve path)),
          ∃ c ∈ d.fileName, c ≠ ' ' ∧ c ≠ '/' :=
        fun d hd => vol.found_name _ d (List.mem_filter.1 hd).1
      revert he hname
      cases needed (vol.found (fs.resolve path)) with
      | nil => exact fun he => nomatch he
      | cons d ds =>
          intro he hname
          rcases List.mem_cons.1 he with rfl | he
          · exact (isEmpty_entry path (hname d List.mem_cons_self)).2
          · obtain ⟨d', hd', rfl⟩ := List.mem_map.1 he
            exact (isEmpty_entry path.copy (hname d' (List.mem_cons_of_mem d hd'))).1
  openFile := fs.openFile vol
  nativeFs := some (fs.resolveToNativePath vol)

/-! ### Iterators -/

/-- An empty directory leaves no handle open. -/
theorem openDirIterator_nil {fs : WinNativeFileSystem} {vol : Volume} {s : State} {path : FsPath}
    (hfresh : s.finds s.nextHandle = none) (h : fs.dirEntries vol path = []) :
    ∃ n, s.nextHandle ≤ n ∧
      fs.openDirIterator vol s path = ({ s with nextHandle := n }, none) := by
  rw [WinNativeFileSystem.dirEntries] at h
  rw [WinNativeFileSystem.openDirIterator]
  by_cases hempty : fs.resolve path = []
  · exact ⟨s.nextHandle, Nat.le_refl _, by rw [if_pos hempty]⟩
  · rw [if_neg hempty]
    by_cases hattributes : vol.attributes (fs.resolve path) ≠ some true
    · exact ⟨s.nextHandle, Nat.le_refl _, by rw [if_pos hattributes]⟩
    · rw [if_neg (not_or_intro hempty hattributes)] at h
      rw [if_neg hattributes, State.findFirst]
      cases hfound : vol.found (fs.resolve path) with
      | nil => exact ⟨s.nextHandle, Nat.le_refl _, rfl⟩
      | cons d ds =>
          rw [hfound] at h
          have hnone : needed (d :: ds) = [] := by
            cases hneeded : needed (d :: ds) with
            | nil => rfl
            | cons => rw [hneeded] at h; cases h
          obtain ⟨rest, -, hskip⟩ := skipNotNeededEntries_setFind
            { s with nextHandle := s.nextHandle + 1 } s.nextHandle d ds
          refine ⟨s.nextHandle + 1, Nat.le_succ _, ?_⟩
          have hback := State.setFind_self { s with nextHandle := s.nextHandle + 1 } hfresh
          dsimp only
          rw [hskip, hnone]
          simp only [List.head?_nil, State.findClose, State.setFind_finds_self,
            State.setFind_setFind, hback]

/-- The state with one iterator more. -/
def State.withIterator (s : State) (rest : List FindData) (basePath : FsPath) : State :=
  { { s with nextHandle := s.nextHandle + 1 }.setFind s.nextHandle (some rest) with
    iterators := update s.iterators s.nextPtr (some ⟨s.nextHandle, basePath⟩)
    nextPtr := s.nextPtr + 1 }

/-- An iterator is made for a directory with entries: the first is given, the others are still to
come. -/
theorem openDirIterator_cons {fs : WinNativeFileSystem} {vol : Volume} (s : State) {path : FsPath}
    {e : FsEntry} {es : List FsEntry} (h : fs.dirEntries vol path = e :: es) :
    ∃ rest, es = (needed rest).map (win32FindDataToFsEntry path.copy) ∧
      fs.openDirIterator vol s path = (s.withIterator rest path.copy, some (s.nextPtr, e)) := by
  rw [WinNativeFileSystem.dirEntries] at h
  split at h
  · cases h
  · next hguard =>
    obtain ⟨hempty, hattributes⟩ := not_or.1 hguard
    cases hfound : vol.found (fs.resolve path) with
    | nil => rw [hfound] at h; cases h
    | cons d ds =>
        rw [hfound] at h
        obtain ⟨rest, hrest, hskip⟩ := skipNotNeededEntries_setFind
          { s with nextHandle := s.nextHandle + 1 } s.nextHandle d ds
        cases hneeded : needed (d :: ds) with
        | nil => rw [hneeded] at h; cases h
        | cons d' ds' =>
            rw [hneeded] at h
            obtain ⟨rfl, rfl⟩ := List.cons.inj h
            rw [hneeded, List.tail_cons] at hrest
            refine ⟨rest, by rw [hrest], ?_⟩
            rw [WinNativeFileSystem.openDirIterator, if_neg hempty, if_neg hattributes,
              State.findFirst, hfound]
            dsimp only
            rw [hskip, hneeded]
            rfl

theorem incrementDirIterator_eq {s : State} {ptr : ℕ} {data : DirIteratorData}
    {rest : List FindData} (hdata : s.iterators ptr = some data)
    (hrest : s.finds data.hFind = some rest) :
    ∃ rest', needed rest' = (needed rest).tail ∧ incrementDirIterator s ptr =
      (s.setFind data.hFind (some rest'),
        ((needed rest).map (win32FindDataToFsEntry data.basePath)).head?) := by
  rw [incrementDirIterator, hdata]
  cases rest with
  | nil =>
      refine ⟨[], rfl, ?_⟩
      simp only [State.findNext, hrest, s.setFind_self hrest]
      rfl
  | cons d ds =>
      obtain ⟨rest', hrest', hskip⟩ := skipNotNeededEntries_setFind s data.hFind d ds
      refine ⟨rest', hrest', ?_⟩
      simp only [State.findNext, hrest, hskip, List.head?_map]

/-! ### The lists -/

/-- Each iterator has an open handle of its own, and gives what its list has; no other handle is
open. -/
structure Related (s : State) (a : Lists) : Prop where
  faults : s.faults = 0
  nextPtr : a.nextPtr = s.nextPtr
  gone : ∀ ptr, s.iterators ptr = none → a.live ptr = none
  live : ∀ ptr data, s.iterators ptr = some data → ∃ rest, s.finds data.hFind = some rest ∧
    a.live ptr = some ((needed rest).map (win32FindDataToFsEntry data.basePath))
  apart : ∀ p q data data', s.iterators p = some data → s.iterators q = some data' →
    data.hFind = data'.hFind → p = q
  held : ∀ hFind, s.finds hFind ≠ none → ∃ p data, s.iterators p = some data ∧ data.hFind = hFind
  freshPtr : ∀ p, s.nextPtr ≤ p → s.iterators p = none
  freshHandle : ∀ h, s.nextHandle ≤ h → s.finds h = none

namespace Related

variable {fs : WinNativeFileSystem} {vol : Volume} {s : State} {a : Lists}

/-- The handles of iterators have been given. -/
theorem handle_lt (h : Related s a) {p : ℕ} {data : DirIteratorData}
    (hp : s.iterators p = some data) : data.hFind < s.nextHandle := by
  obtain ⟨rest, hrest, -⟩ := h.live p data hp
  by_contra hle
  rw [h.freshHandle _ (Nat.le_of_not_lt hle)] at hrest
  cases hrest

theorem ptr_lt (h : Related s a) {p : ℕ} {data : DirIteratorData}
    (hp : s.iterators p = some data) : p < s.nextPtr := by
  by_contra hle
  rw [h.freshPtr _ (Nat.le_of_not_lt hle)] at hp
  cases hp

theorem withIterator (h : Related s a) (rest : List FindData) (basePath : FsPath) :
    Related (s.withIterator rest basePath)
      { live := update a.live a.nextPtr
          (some ((needed rest).map (win32FindDataToFsEntry basePath)))
        nextPtr := a.nextPtr + 1 } := by
  rw [h.nextPtr]
  -- an iterator is the new one, or was there, with another handle
  have hcases : ∀ p data, (s.withIterator rest basePath).iterators p = some data →
      p = s.nextPtr ∧ data = ⟨s.nextHandle, basePath⟩ ∨
        p ≠ s.nextPtr ∧ s.iterators p = some data := by
    intro p data hp
    by_cases hnew : p = s.nextPtr
    · subst hnew
      have hdata : update s.iterators s.nextPtr (some ⟨s.nextHandle, basePath⟩) s.nextPtr =
        some data := hp
      rw [Function.update_self] at hdata
      exact .inl ⟨rfl, (Option.some.inj hdata).symm⟩
    · exact .inr ⟨hnew, (Function.update_of_ne hnew ..).symm.trans hp⟩
  refine ⟨h.faults, rfl, fun p hp => ?_, fun p data hp => ?_, fun p q data data' hp hq heq => ?_,
    fun hFind hopen => ?_, fun p hp => ?_, fun m hm => ?_⟩
  · have hne : p ≠ s.nextPtr := by
      rintro rfl
      cases (Function.update_self ..).symm.trans hp
    exact (Function.update_of_ne hne ..).trans
      (h.gone p ((Function.update_of_ne hne ..).symm.trans hp))
  · rcases hcases p data hp with ⟨rfl, rfl⟩ | ⟨hne, hold⟩
    · exact ⟨rest, State.setFind_finds_self .., Function.update_self ..⟩
    · obtain ⟨rest', hrest', hlive⟩ := h.live p data hold
      exact ⟨rest', (State.setFind_finds_of_ne _ (Nat.ne_of_lt (h.handle_lt hold)) _).trans hrest',
        (Function.update_of_ne hne ..).trans hlive⟩
  · rcases hcases p data hp with ⟨rfl, rfl⟩ | ⟨-, holdp⟩ <;>
      rcases hcases q data' hq with ⟨rfl, rfl⟩ | ⟨-, holdq⟩
    · rfl
    · exact absurd heq.symm (Nat.ne_of_lt (h.handle_lt holdq))
    · exact absurd heq (Nat.ne_of_lt (h.handle_lt holdp))
    · exact h.apart p q data data' holdp holdq heq
  · by_cases hnew : hFind = s.nextHandle
    · exact ⟨s.nextPtr, ⟨s.nextHandle, basePath⟩, Function.update_self .., hnew.symm⟩
    · obtain ⟨p, data, hp, hdata⟩ := h.held hFind
        fun hnone => hopen ((State.setFind_finds_of_ne _ hnew _).trans hnone)
      exact ⟨p, data, (Function.update_of_ne (Nat.ne_of_lt (h.ptr_lt hp)) ..).trans hp, hdata⟩
  · exact (Function.update_of_ne (Nat.ne_of_gt hp) ..).trans (h.freshPtr p (Nat.le_of_succ_le hp))
  · exact (State.setFind_finds_of_ne _ (Nat.ne_of_gt hm) _).trans
      (h.freshHandle m (Nat.le_of_succ_le hm))

/-- An iterator goes on. -/
theorem setFind (h : Related s a) {ptr : ℕ} {data : DirIteratorData}
    (hdata : s.iterators ptr = some data) (rest : List FindData) :
    Related (s.setFind data.hFind (some rest))
      { a with
        live := update a.live ptr
          (some ((needed rest).map (win32FindDataToFsEntry data.basePath))) } := by
  refine ⟨h.faults, h.nextPtr, fun p hp => ?_, fun p data' hp => ?_, h.apart,
    fun hFind hopen => ?_, h.freshPtr, fun m hm => ?_⟩
  · have hother : p ≠ ptr := by
      rintro rfl
      cases hdata.symm.trans hp
    exact (Function.update_of_ne hother ..).trans (h.gone p hp)
  · by_cases hsame : p = ptr
    · subst hsame
      obtain rfl : data = data' := Option.some.inj (hdata.symm.trans hp)
      exact ⟨rest, State.setFind_finds_self .., Function.update_self ..⟩
    · obtain ⟨rest', hrest', hlive⟩ := h.live p data' hp
      have hother : data'.hFind ≠ data.hFind := fun heq => hsame (h.apart p ptr _ _ hp hdata heq)
      exact ⟨rest', (State.setFind_finds_of_ne _ hother _).trans hrest',
        (Function.update_of_ne hsame ..).trans hlive⟩
  · by_cases hsame : hFind = data.hFind
    · exact ⟨ptr, data, hdata, hsame.symm⟩
    · exact h.held hFind fun hnone => hopen ((State.setFind_finds_of_ne _ hsame _).trans hnone)
  · have hother : m ≠ data.hFind := Nat.ne_of_gt (Nat.lt_of_lt_of_le (h.handle_lt hdata) hm)
    exact (State.setFind_finds_of_ne _ hother _).trans (h.freshHandle m hm)

/-- An iterator goes, with its handle. -/
theorem remove (h : Related s a) {ptr : ℕ} {data : DirIteratorData}
    (hdata : s.iterators ptr = some data) :
    Related { s.setFind data.hFind none with iterators := update s.iterators ptr none }
      { a with live := update a.live ptr none } := by
  -- an iterator that is left is another one, with another handle
  have hleft : ∀ p data', update s.iterators ptr none p = some data' →
      p ≠ ptr ∧ s.iterators p = some data' ∧ data'.hFind ≠ data.hFind := by
    intro p data' hp
    have hother : p ≠ ptr := by
      rintro rfl
      cases (Function.update_self ..).symm.trans hp
    have hp := (Function.update_of_ne hother ..).symm.trans hp
    exact ⟨hother, hp, fun heq => hother (h.apart p ptr _ _ hp hdata heq)⟩
  refine ⟨h.faults, h.nextPtr, fun p hp => ?_, fun p data' hp => ?_,
    fun p q d d' hp hq => h.apart p q d d' (hleft p d hp).2.1 (hleft q d' hq).2.1,
    fun hFind hopen => ?_, fun p hp => ?_, fun m hm => ?_⟩
  · by_cases hsame : p = ptr
    · subst hsame
      exact Function.update_self ..
    · exact (Function.update_of_ne hsame ..).trans
        (h.gone p ((Function.update_of_ne hsame ..).symm.trans hp))
  · obtain ⟨hother, hp, hhandle⟩ := hleft p data' hp
    obtain ⟨rest, hrest, hlive⟩ := h.live p data' hp
    exact ⟨rest, (State.setFind_finds_of_ne _ hhandle _).trans hrest,
      (Function.update_of_ne hother ..).trans hlive⟩
  · by_cases hsame : hFind = data.hFind
    · subst hsame
      exact absurd (s.setFind_finds_self data.hFind none) hopen
    · obtain ⟨p, data', hp, hheld⟩ := h.held hFind
        fun hnone => hopen ((State.setFind_finds_of_ne _ hsame _).trans hnone)
      have hother : p ≠ ptr := by
        rintro rfl
        obtain rfl : data = data' := Option.some.inj (hdata.symm.trans hp)
        exact hsame hheld.symm
      exact ⟨p, data', (Function.update_of_ne hother ..).trans hp, hheld⟩
  · by_cases hsame : p = ptr
    · subst hsame
      exact Function.update_self ..
    · exact (Function.update_of_ne hsame ..).trans (h.freshPtr p hp)
  · have hother : m ≠ data.hFind := Nat.ne_of_gt (Nat.lt_of_lt_of_le (h.handle_lt hdata) hm)
    exact (State.setFind_finds_of_ne _ hother _).trans (h.freshHandle m hm)

theorem openDir (h : Related s a) (path : FsPath) :
    (Native.step fs vol s (.openDir path)).2 =
        (a.step (fs.toFileSystem vol).toFileSystem (.openDir path)).2 ∧
      Related (Native.step fs vol s (.openDir path)).1
        (a.step (fs.toFileSystem vol).toFileSystem (.openDir path)).1 := by
  rw [Native.step, Lists.step]
  cases hentries : fs.dirEntries vol path with
  | nil =>
      have hdir : (fs.toFileSystem vol).toFileSystem.dirEntries path = [] := hentries
      have hlists : (fs.toFileSystem vol).toFileSystem.openDirIterator path = none := by
        rw [FileSystem.openDirIterator, hdir]
      obtain ⟨n, hn, hopen⟩ := openDirIterator_nil (h.freshHandle _ (Nat.le_refl _)) hentries
      rw [hopen, hlists]
      exact ⟨rfl, { h with freshHandle := fun m hm => h.freshHandle m (hn.trans hm) }⟩
  | cons e es =>
      have hdir : (fs.toFileSystem vol).toFileSystem.dirEntries path = e :: es := hentries
      have hlists : (fs.toFileSystem vol).toFileSystem.openDirIterator path = some (es, e) := by
        rw [FileSystem.openDirIterator, hdir]
      obtain ⟨rest, hes, hopen⟩ := openDirIterator_cons s hentries
      rw [hopen, hlists, hes]
      exact ⟨by rw [h.nextPtr], h.withIterator rest path.copy⟩

theorem exists_data (h : Related s a) {ptr : ℕ} (hhas : a.live ptr ≠ none) :
    ∃ data, s.iterators ptr = some data := by
  cases hptr : s.iterators ptr with
  | none => exact absurd (h.gone ptr hptr) hhas
  | some data => exact ⟨data, rfl⟩

theorem increment (h : Related s a) {ptr : ℕ} (hhas : a.live ptr ≠ none) (f : FileSystem) :
    (Native.step fs vol s (.increment ptr)).2 = (a.step f (.increment ptr)).2 ∧
      Related (Native.step fs vol s (.increment ptr)).1 (a.step f (.increment ptr)).1 := by
  obtain ⟨data, hdata⟩ := h.exists_data hhas
  obtain ⟨rest, hrest, hlive⟩ := h.live ptr data hdata
  obtain ⟨rest', htail, hincrement⟩ := incrementDirIterator_eq hdata hrest
  have hnext := h.setFind hdata rest'
  rw [htail] at hnext
  rw [Native.step, hincrement, Lists.step, hlive, Option.getD_some]
  cases hneeded : needed rest with
  | nil =>
      rw [hneeded] at hnext hlive
      have hsame : update a.live ptr (some []) = a.live := Function.update_eq_self_iff.2 hlive.symm
      refine ⟨rfl, ?_⟩
      rw [List.tail_nil, List.map_nil, hsame] at hnext
      exact hnext
  | cons d ds =>
      rw [hneeded] at hnext
      exact ⟨rfl, hnext⟩

theorem close (h : Related s a) {ptr : ℕ} (hhas : a.live ptr ≠ none) (f : FileSystem) :
    Related (Native.step fs vol s (.close ptr)).1 (a.step f (.close ptr)).1 := by
  obtain ⟨data, hdata⟩ := h.exists_data hhas
  obtain ⟨rest, hrest, -⟩ := h.live ptr data hdata
  have hclose : closeDirIterator s ptr =
      { s.setFind data.hFind none with iterators := update s.iterators ptr none } := by
    simp only [closeDirIterator, hdata, State.findClose, hrest]
  rw [Native.step, hclose]
  exact h.remove hdata

theorem step (h : Related s a) {action : Action} (hhas : a.Has action) :
    (Native.step fs vol s action).2 = (a.step (fs.toFileSystem vol).toFileSystem action).2 ∧
      Related (Native.step fs vol s action).1
        (a.step (fs.toFileSystem vol).toFileSystem action).1 := by
  cases action with
  | openDir path => exact h.openDir path
  | increment ptr => exact h.increment hhas _
  | close ptr => exact ⟨rfl, h.close hhas _⟩

theorem run (h : Related s a) (actions : List Action)
    (huses : a.Uses (fs.toFileSystem vol).toFileSystem actions) :
    (Native.run (Native.step fs vol) s actions).2 =
        (Native.run (Lists.step (fs.toFileSystem vol).toFileSystem) a actions).2 ∧
      Related (Native.run (Native.step fs vol) s actions).1
        (Native.run (Lists.step (fs.toFileSystem vol).toFileSystem) a actions).1 := by
  induction actions generalizing s a with
  | nil => exact ⟨rfl, h⟩
  | cons action actions ih =>
      obtain ⟨hanswer, hnext⟩ :
          (Native.step fs vol s action).2 = (a.step (fs.toFileSystem vol).toFileSystem action).2 ∧
            Related (Native.step fs vol s action).1
              (a.step (fs.toFileSystem vol).toFileSystem action).1 := h.step huses.1
      obtain ⟨hanswers, hend⟩ := ih hnext huses.2
      exact ⟨congrArg₂ List.cons hanswer hanswers, hend⟩

end Related

theorem related_new : Related {} {} where
  faults := rfl
  nextPtr := rfl
  gone _ _ := rfl
  live _ _ h := nomatch h
  apart _ _ _ _ h _ _ := nomatch h
  held _ h := absurd rfl h
  freshPtr _ _ := rfl
  freshHandle _ _ := rfl

/-- **Directories of a drive.**  Whatever a client opens, increments and closes, in whatever order:
it is given what the lists of entries give, every search handle that is open is that of an iterator
that is not closed, and no handle and no iterator is used that is not there. -/
theorem native_refines (fs : WinNativeFileSystem) (vol : Volume) (actions : List Action)
    (huses : ({} : Lists).Uses (fs.toFileSystem vol).toFileSystem actions) :
    (run (step fs vol) {} actions).2 =
        (run (Lists.step (fs.toFileSystem vol).toFileSystem) {} actions).2 ∧
      (run (step fs vol) {} actions).1.faults = 0 ∧
      (∀ ptr, (run (step fs vol) {} actions).1.iterators ptr = none ↔
        (run (Lists.step (fs.toFileSystem vol).toFileSystem) {} actions).1.live ptr = none) ∧
      ∀ hFind, (run (step fs vol) {} actions).1.finds hFind ≠ none ↔
        ∃ ptr data, (run (step fs vol) {} actions).1.iterators ptr = some data ∧
          data.hFind = hFind := by
  obtain ⟨hanswers, hrelated⟩ := related_new.run actions huses
  refine ⟨hanswers, hrelated.faults, fun ptr => ⟨hrelated.gone ptr, fun hgone => ?_⟩,
    fun hFind => ⟨hrelated.held hFind, ?_⟩⟩
  · by_contra hptr
    obtain ⟨data, hdata⟩ := Option.ne_none_iff_exists'.1 hptr
    obtain ⟨rest, -, hlive⟩ := hrelated.live ptr data hdata
    rw [hgone] at hlive
    cases hlive
  · rintro ⟨ptr, data, hdata, rfl⟩
    obtain ⟨rest, hrest, -⟩ := hrelated.live ptr data hdata
    rw [hrest]
    exact Option.some_ne_none rest

/-- Every directory has the same file. -/
def oneFile : Volume where
  attributes _ := some true
  found _ := [⟨['.'], true, 0, 0⟩, ⟨['.', '.'], true, 0, 0⟩, ⟨['f'], false, 0, 5⟩]
  found_name _ := by simp

theorem native_refines_oneFile : (run (step ⟨fun _ => ['d'], false⟩ oneFile) {}
    [.openDir .root, .increment 0, .close 0]).1.faults = 0 :=
  (native_refines ⟨fun _ => ['d'], false⟩ oneFile [.openDir .root, .increment 0, .close 0]
    ⟨trivial, Option.some_ne_none _, Option.some_ne_none _, trivial⟩).2.1

end MyEngine.Io.Native
