import Mathlib.Data.List.Nodup
import Mathlib.Data.List.Perm.Subperm
import MyEngine.Io.FsPathCopies
import MyEngine.Support.Assoc
import MyEngine.Support.Keyed
import MyEngine.Support.Runs

/-!
# Script — Require

`lua_realm.cpp`: the Lua function `require` of a realm, over the two native functions it calls.
Scripts call it while they run, and `ExecuteFile` from native code.  The table of the imported
modules is indexed with the global variable `resolvedPath`, which nothing defines: the local
variable of that name is declared further down.

* `require_eq`: the table answers no call; each one resolves its path and loads the file anew.
* `loaded_eq`: the files that a run has loaded are those its calls ask for, one after the other.
* `require_once_iff`: a file is loaded at most once, and its callers get one value, exactly when
  no two calls ask for one file.
-/

namespace MyEngine.Script

open Io Runs

/-! ### Paths -/

/-- What `LuaScriptManager` finds scripts by: its members, and the answers of the file system. -/
structure LuaScriptManager where
  searchPaths : List FsPath
  scriptFileExtension : List Char := ['.', 'l', 'u', 'a']
  /-- `fs.exists(path, FsEntryKind::File)`. -/
  isFile : FsPath → Bool
  /-- Whether `fs.openFile` returns an opened file. -/
  opens : FsPath → Bool

namespace LuaScriptManager

/-- `ResolvePath`. -/
def resolvePath (m : LuaScriptManager) (filePath : FsPath) : Except String FsPath :=
  let scriptFilePath :=
    if filePath.isAbsolute then
      filePath
    else
      let modulePaths := m.searchPaths.map fun scriptsRoot =>
        (scriptsRoot.div filePath).plus m.scriptFileExtension
      (modulePaths.find? m.isFile).getD .empty
  if scriptFilePath.isEmpty then
    .error s!"Script file path not resolved:({String.ofList filePath.path})"
  else if !m.isFile scriptFilePath then
    .error s!"Path is not regular file:({String.ofList filePath.path})"
  else
    .ok scriptFilePath.move

/-- `NativeResolveImportPath`. -/
def resolveImportPath (m : LuaScriptManager) (importPath : List Char) : Except String FsPath :=
  m.resolvePath (.ofString (importPath.map fun c => if c = '.' then '/' else c))

/-- The file a call of `require` loads: what its import path resolves to, when that can be
opened. -/
def requested (m : LuaScriptManager) (importPath : List Char) : Option FsPath :=
  match m.resolveImportPath importPath with
  | .error _         => none
  | .ok resolvedPath => if m.opens (.ofString resolvedPath.path) then some resolvedPath else none

end LuaScriptManager

/-! ### The realm -/

/-- A Lua value; `other` are those that no part of `require` tells apart. -/
inductive LuaValue (V : Type*) where
  | nil
  | boolean (b : Bool)
  | string (s : String)
  | other (v : V)
  deriving DecidableEq

/-- What counts as false in a condition. -/
def LuaValue.isFalse {V : Type*} : LuaValue V → Bool
  | .nil | .boolean false => true
  | _                     => false

/-- `a or b`. -/
def LuaValue.or {V : Type*} (a b : LuaValue V) : LuaValue V := if a.isFalse then b else a

/-- A call of `require` whose script runs. -/
structure Import where
  importFilePath : List Char
  resolvedPath : FsPath
  deriving DecidableEq

structure Realm (V : Type*) where
  /-- `my_Internals.importedModules`. -/
  importedModules : List (FsPath × LuaValue V) := []
  /-- The scripts that run, each required by the next. -/
  loading : List Import := []
  /-- The files that have been loaded, the last one first. -/
  loaded : List FsPath := []
  /-- The import paths of the calls that have returned, with what they returned. -/
  returned : List (List Char × LuaValue V) := []
  /-- Those of the calls that have raised an error. -/
  raised : List (List Char × LuaValue V) := []
  deriving DecidableEq

/-- A key of the table, or `nil`. -/
def globalResolvedPath : Option FsPath := none

namespace Realm

variable {V : Type*}

/-- `my_Internals.importedModules[key]`. -/
def index (s : Realm V) : Option FsPath → LuaValue V
  | none     => .nil
  | some key => (s.importedModules.lookup key).getD .nil

/-- `my_Internals.importedModules[key] = value`. -/
def setIndex (s : Realm V) (key : FsPath) (value : LuaValue V) : Realm V :=
  { s with importedModules := Support.put key value s.importedModules }

def raise (s : Realm V) (importFilePath : List Char) (error : LuaValue V) : Realm V :=
  { s with raised := (importFilePath, error) :: s.raised }

/-- `require`, until the script it loads runs. -/
def require (m : LuaScriptManager) (s : Realm V) (importFilePath : List Char) : Realm V :=
  match s.index globalResolvedPath with
  | .nil =>
      match m.resolveImportPath importFilePath with
      | .error resolveErr => s.raise importFilePath (.string resolveErr)
      | .ok resolvedPath  =>
          if m.opens (.ofString resolvedPath.path) then
            { s with
              loading := ⟨importFilePath, resolvedPath⟩ :: s.loading
              loaded := resolvedPath :: s.loaded }
          else
            -- the macro formats the text of its argument
            s.raise importFilePath (.string "Fail to open program file: filePath.getString()")
  | module => { s with returned := (importFilePath, module) :: s.returned }

/-- `require`, when the script it has loaded returns its `results`, a `nil` behind them. -/
def imported (s : Realm V) (call : Import) (results : List (LuaValue V)) : Realm V :=
  let newModule := results.headD .nil
  let importError := (results.drop 1).headD .nil
  if newModule.isFalse then
    s.raise call.importFilePath (importError.or (.string
      s!"Fail to import module:({String.ofList call.resolvedPath.path})"))
  else
    let s := s.setIndex call.resolvedPath newModule
    { s with returned := (call.importFilePath, newModule) :: s.returned }

end Realm

/-- What happens in a realm: the innermost script that runs, or native code when there is none,
calls `require`, and the innermost script ends. -/
inductive Action (V : Type*) where
  | require (importFilePath : List Char)
  | returns (results : List (LuaValue V))
  | fails (message : String)
  deriving DecidableEq

namespace Realm

variable {V : Type*}

def step (m : LuaScriptManager) (s : Realm V) : Action V → Option (Realm V)
  | .require importFilePath => some (s.require m importFilePath)
  | .returns results =>
      match s.loading with
      | []              => none
      | call :: loading => some ({ s with loading }.imported call results)
  | .fails message =>
      match s.loading with
      | []              => none
      | call :: loading =>
          some ({ s with loading }.raise call.importFilePath (.string message))

/-- The table is indexed with `nil`, so that every call goes on to load its file. -/
theorem require_eq (m : LuaScriptManager) (s : Realm V) (importFilePath : List Char) :
    s.require m importFilePath =
      match m.resolveImportPath importFilePath with
      | .error resolveErr => s.raise importFilePath (.string resolveErr)
      | .ok resolvedPath  =>
          if m.opens (.ofString resolvedPath.path) then
            { s with
              loading := ⟨importFilePath, resolvedPath⟩ :: s.loading
              loaded := resolvedPath :: s.loaded }
          else
            s.raise importFilePath (.string "Fail to open program file: filePath.getString()") :=
  rfl

/-- The two ways a call of `require` goes. -/
theorem require_cases (m : LuaScriptManager) (s : Realm V) (importFilePath : List Char) :
    (∃ resolvedPath, m.requested importFilePath = some resolvedPath ∧
      s.require m importFilePath = { s with
        loading := ⟨importFilePath, resolvedPath⟩ :: s.loading
        loaded := resolvedPath :: s.loaded }) ∨
    m.requested importFilePath = none ∧
      ∃ error, s.require m importFilePath = s.raise importFilePath error := by
  rw [require_eq, LuaScriptManager.requested]
  cases m.resolveImportPath importFilePath with
  | error resolveErr => exact .inr ⟨rfl, _, rfl⟩
  | ok resolvedPath =>
      by_cases h : m.opens (.ofString resolvedPath.path) = true
      · exact .inl ⟨resolvedPath, if_pos h, if_pos h⟩
      · exact .inr ⟨if_neg h, _, if_neg h⟩

/-- The two ways a call ends whose script has returned. -/
theorem imported_cases (s : Realm V) (call : Import) (results : List (LuaValue V)) :
    (∃ error, s.imported call results = s.raise call.importFilePath error) ∨
    ∃ newModule modules, s.imported call results = { s with
      importedModules := modules
      returned := (call.importFilePath, newModule) :: s.returned } := by
  rw [imported]
  split
  · exact .inl ⟨_, rfl⟩
  · exact .inr ⟨_, _, rfl⟩

/-- The import paths of the calls that have not failed. -/
def calls (s : Realm V) : List (List Char) :=
  s.loading.map (·.importFilePath) ++ s.returned.map Prod.fst

/-- A step of the realm, as far as its calls are concerned. -/
inductive Stepped (m : LuaScriptManager) (s s' : Realm V) : Action V → Prop where
  | loads {importFilePath : List Char} {resolvedPath : FsPath}
      (h : m.requested importFilePath = some resolvedPath)
      (hl : s'.loaded = resolvedPath :: s.loaded) (hc : s'.calls = importFilePath :: s.calls) :
      Stepped m s s' (.require importFilePath)
  | refused {importFilePath : List Char} (h : m.requested importFilePath = none)
      (hl : s'.loaded = s.loaded) (hc : s'.calls = s.calls) :
      Stepped m s s' (.require importFilePath)
  | returns {results : List (LuaValue V)} (hl : s'.loaded = s.loaded)
      (hc : s'.calls.Subperm s.calls) : Stepped m s s' (.returns results)
  | fails {message : String} (hl : s'.loaded = s.loaded) (hc : s'.calls.Subperm s.calls) :
      Stepped m s s' (.fails message)

theorem stepped {m : LuaScriptManager} {s s' : Realm V} {a : Action V}
    (h : s.step m a = some s') : Stepped m s s' a := by
  cases a with
  | require importFilePath =>
      obtain rfl := Option.some.inj h
      obtain ⟨resolvedPath, hr, he⟩ | ⟨hr, error, he⟩ := s.require_cases m importFilePath
      · exact .loads hr (by rw [he]) (by rw [he]; rfl)
      · exact .refused hr (by rw [he]; rfl) (by rw [he]; rfl)
  | returns results =>
      rw [step] at h
      cases hl : s.loading with
      | nil =>
          rw [hl] at h
          cases h
      | cons call loading =>
          rw [hl] at h
          obtain rfl := Option.some.inj h
          have hcalls : s.calls = call.importFilePath ::
              (loading.map (·.importFilePath) ++ s.returned.map Prod.fst) := by
            rw [calls, hl]
            rfl
          obtain ⟨error, he⟩ | ⟨newModule, modules, he⟩ :=
            imported_cases { s with loading } call results
          · refine .returns (by rw [he]; rfl) ?_
            rw [he, hcalls]
            exact (List.sublist_cons_self _ _).subperm
          · refine .returns (by rw [he]) ?_
            rw [he, hcalls]
            exact List.perm_middle.subperm
  | fails message =>
      rw [step] at h
      cases hl : s.loading with
      | nil =>
          rw [hl] at h
          cases h
      | cons call loading =>
          rw [hl] at h
          obtain rfl := Option.some.inj h
          refine .fails rfl ?_
          rw [calls, calls, hl]
          exact (List.sublist_cons_self _ _).subperm

/-- The file that an action asks for. -/
def request (m : LuaScriptManager) : Action V → Option FsPath
  | .require importFilePath => m.requested importFilePath
  | _                       => none

/-- Every file a run has loaded was asked for, and the calls that have not failed each have one
of them. -/
structure Inv (m : LuaScriptManager) (s : Realm V) : Prop where
  asked : ∀ importFilePath ∈ s.calls, m.requested importFilePath ≠ none
  loads : (s.calls.filterMap m.requested).Subperm s.loaded

theorem Inv.step {m : LuaScriptManager} {s s' : Realm V} {a : Action V} (h : Inv m s)
    (hs : s.step m a = some s') : Inv m s' := by
  have hsub : s'.loaded = s.loaded → s'.calls.Subperm s.calls → Inv m s' := by
    rintro hl ⟨l, hperm, hl'⟩
    refine ⟨fun p hp => h.asked p (hl'.subset (hperm.mem_iff.mpr hp)), ?_⟩
    rw [hl]
    exact List.Subperm.trans ⟨_, hperm.filterMap _, hl'.filterMap _⟩ h.loads
  cases stepped hs with
  | loads hr hl hc =>
      refine ⟨fun p hp => ?_, ?_⟩
      · rw [hc] at hp
        rcases List.mem_cons.mp hp with rfl | hp
        · rw [hr]
          exact Option.some_ne_none _
        · exact h.asked p hp
      · rw [hc, hl, List.filterMap_cons_some hr]
        exact (List.subperm_cons _).mpr h.loads
  | refused _ hl hc => exact hsub hl (hc ▸ List.Subperm.refl _)
  | returns hl hc => exact hsub hl hc
  | fails hl hc => exact hsub hl hc

/-- The files come in the order they were asked for. -/
theorem loaded_eq {m : LuaScriptManager} {as : List (Action V)} {s s' : Realm V}
    (h : exec (step m) s as = some s') :
    s'.loaded = (as.filterMap (request m)).reverse ++ s.loaded := by
  induction as generalizing s with
  | nil =>
      obtain rfl := Option.some.inj h
      rfl
  | cons a as ih =>
      obtain ⟨s₁, hs, ht⟩ := Option.bind_eq_some_iff.mp h
      rw [ih ht]
      cases stepped hs with
      | @loads importFilePath resolvedPath hr hl =>
          have hr' : request m (.require importFilePath : Action V) = some resolvedPath := hr
          rw [List.filterMap_cons_some hr', hl, List.reverse_cons, List.append_assoc]
          rfl
      | @refused importFilePath hr hl =>
          have hr' : request m (.require importFilePath : Action V) = none := hr
          rw [List.filterMap_cons_none hr', hl]
      | returns hl => rw [List.filterMap_cons_none rfl, hl]
      | fails hl => rw [List.filterMap_cons_none rfl, hl]

/-- No file is loaded twice, and calls whose paths resolve to one file return one value. -/
structure Sound (m : LuaScriptManager) (s : Realm V) : Prop where
  once : s.loaded.Nodup
  shared : ∀ {p q v w}, (p, v) ∈ s.returned → (q, w) ∈ s.returned → ∀ {file},
    m.resolveImportPath p = .ok file → m.resolveImportPath q = .ok file → v = w

/-- Where a partial function is defined throughout, nothing is filtered out. -/
theorem map_eq_map_some {α β : Type*} {f : α → Option β} {l : List α}
    (h : ∀ x ∈ l, f x ≠ none) : l.map f = (l.filterMap f).map some := by
  induction l with
  | nil => rfl
  | cons x l ih =>
      obtain ⟨y, hy⟩ := Option.ne_none_iff_exists'.mp (h x List.mem_cons_self)
      rw [List.filterMap_cons_some hy, List.map_cons, List.map_cons, hy,
        ih fun z hz => h z (List.mem_cons_of_mem _ hz)]

/-- The files of the calls that have returned are different when those that were loaded are. -/
theorem Inv.sound {m : LuaScriptManager} {s : Realm V} (h : Inv m s) (hnodup : s.loaded.Nodup) :
    s.Sound m := by
  refine ⟨hnodup, fun {p q v w} hp hq {file} hfp hfq => ?_⟩
  have hfiles : (s.returned.map fun entry => m.requested entry.1).Nodup := by
    have hsome : ∀ r ∈ s.returned.map Prod.fst, m.requested r ≠ none := fun r hr =>
      h.asked r (List.mem_append_right _ hr)
    have hsub : ((s.returned.map Prod.fst).filterMap m.requested).Nodup := by
      obtain ⟨l, hperm, hl⟩ := h.loads
      have hcalls := hperm.nodup_iff.mp (hnodup.sublist hl)
      rw [calls, List.filterMap_append] at hcalls
      exact (List.nodup_append.mp hcalls).2.1
    have hmap := map_eq_map_some hsome
    rw [List.map_map] at hmap
    exact hmap ▸ hsub.map fun _ _ => Option.some.inj
  have hrequested : ∀ {r x}, (r, x) ∈ s.returned → m.resolveImportPath r = .ok file →
      m.requested r = some file := by
    intro r x hr hfr
    have hne := h.asked r (List.mem_append_right _ (List.mem_map_of_mem hr))
    rw [LuaScriptManager.requested, hfr] at hne ⊢
    by_cases ho : m.opens (.ofString file.path) = true
    · exact if_pos ho
    · exact absurd (if_neg ho) hne
  have heq := Support.key_inj hfiles hp hq
    ((hrequested hp hfp).trans (hrequested hq hfq).symm)
  exact congrArg Prod.snd heq

/-- **One load for a file.**  In a run of a realm each file is loaded at most once, and all calls
for one file return one value, exactly when no two of its calls ask for the same file. -/
theorem require_once_iff (m : LuaScriptManager) {as : List (Action V)} {s : Realm V}
    (h : exec (step m) {} as = some s) :
    s.Sound m ↔ (as.filterMap (request m)).Nodup := by
  have hl := loaded_eq h
  rw [List.append_nil] at hl
  have hinv : Inv m s := (exec_steps (allowed_free as _) h).invariant
    (P := Inv m) (fun hi _ hs => hi.step hs) ⟨by simp [calls], List.nil_subperm⟩
  have hnodup : s.loaded.Nodup ↔ (as.filterMap (request m)).Nodup := by
    rw [hl, List.nodup_reverse]
  exact ⟨fun hs => hnodup.mp hs.once, fun hn => hinv.sound (hnodup.mpr hn)⟩

/-- One module in one directory, which `require` finds by its name. -/
def oneModule : LuaScriptManager where
  searchPaths := [.ofString ['/', 's']]
  isFile path := path = .ofString "/s/m.lua".toList
  opens path := path = .ofString "/s/m.lua".toList

/-- It is required once. -/
def requiredOnce : List (Action ℕ) := [.require ['m'], .returns [.other 0]]

theorem require_once_requiredOnce : ∃ s, exec (step oneModule) {} requiredOnce = some s ∧
    (s.Sound oneModule ↔ (requiredOnce.filterMap (request oneModule)).Nodup) :=
  ⟨_, rfl, require_once_iff oneModule rfl⟩

/-- Native code requires it twice; each time the script makes a new table. -/
def requiredTwice : List (Action ℕ) :=
  [.require ['m'], .returns [.other 0], .require ['m'], .returns [.other 1]]

theorem require_twice : ∃ s, exec (step oneModule) {} requiredTwice = some s ∧
    s.returned = [(['m'], .other 1), (['m'], .other 0)] ∧ ¬ s.Sound oneModule := by
  refine ⟨_, rfl, by decide, fun h => ?_⟩
  exact absurd h.once (by decide)

end Realm

end MyEngine.Script
