import Mathlib.Algebra.Group.Nat.Defs
import MyEngine.Support.Runs

/-!
# IO — WinFile

`WinFile::memMap` and `memUnmap`: one pointer and a counter for all who have the file mapped.

* `WinFile`, `memMap`, `memUnmap`: the members, and the calls.
* `step`: a call, with what the host maps and unmaps for it.
* `Kept`: what has been mapped can be seen, and the view goes with the last who has mapped it.
* `sharedView_iff`: a file with a mapping handle keeps its mappings as long as all ask for one view.
* `mapped_iff`: a file as it is opened keeps none.
-/

namespace MyEngine.Io.Mapping

open MyEngine.Runs

/-- The size of a file, as `GetFileSizeEx` gives it. -/
structure File where
  size : ℕ
  size_lt : size < 2 ^ 64

/-- What a call of `memMap` asks for, in the range of the file. -/
structure Range (file : File) where
  offset : ℕ
  count : ℕ
  offset_lt : offset < file.size
  end_le : offset + count ≤ file.size

/-- A part of the file that the host has mapped at an address. -/
structure View where
  base : ℕ
  offset : ℕ
  size : ℕ
  deriving DecidableEq, Repr

/-- The members.  No constructor or method of the class sets the handle. -/
structure WinFile (H : Type) where
  fileMappingHandle : Option H := none
  fileMappingCounter : ℕ := 0
  mappedPtr : Option ℕ := none

variable {H : Type} {file : File}

def offsetHigh (offset : ℕ) : ℕ := (offset &&& 0xFFFFFFFF00000000) >>> 32

def offsetLow (offset : ℕ) : ℕ := offset &&& 0xFFFFFFFF

/-- `MapViewOfFile` fails without a mapping; `base` is where it puts the view, when it can.  A size
of zero stands for all that follows. -/
def mapViewOfFile (file : File) (handle : Option H) (high low mapSize : ℕ) (base : Option ℕ) :
    Option View :=
  match handle, base with
  | some _, some base =>
      let offset := high * 2 ^ 32 + low
      some ⟨base, offset, if mapSize = 0 then file.size - offset else mapSize⟩
  | _, _ => none

namespace WinFile

/-- With the view that the host has mapped for it. -/
def memMap (f : WinFile H) (range : Range file) (base : Option ℕ) : WinFile H × Option View :=
  let counter := (f.fileMappingCounter + 1) % 2 ^ 32
  if counter = 1 then
    let view := mapViewOfFile file f.fileMappingHandle (offsetHigh range.offset)
      (offsetLow range.offset) range.count base
    ({ f with fileMappingCounter := counter, mappedPtr := view.map View.base }, view)
  else ({ f with fileMappingCounter := counter }, none)

/-- With the pointer that it unmaps. -/
def memUnmap (f : WinFile H) : WinFile H × Option ℕ :=
  if f.fileMappingCounter = 0 then (f, none)
  else
    let counter := f.fileMappingCounter - 1
    ({ f with fileMappingCounter := counter }, if 0 < counter then none else f.mappedPtr)

end WinFile

/-! ### The calls -/

/-- A `memMap` that has not been matched: what it has asked for, and what it has returned. -/
structure Mapping where
  offset : ℕ
  count : ℕ
  ptr : Option ℕ

structure State (H : Type) where
  file : WinFile H := {}
  views : List View := []
  mappings : List Mapping := []

/-- A `memUnmap` is for one of the calls that have not been matched. -/
inductive Call (file : File) where
  | memMap (range : Range file) (base : Option ℕ)
  | memUnmap (mapping : ℕ)

def unmapViewOfFile (views : List View) : Option ℕ → List View
  | none     => views
  | some ptr => views.filter fun v => v.base ≠ ptr

/-- With no mapping left, a `memUnmap` matches none. -/
def step (s : State H) : Call file → Option (State H)
  | .memMap range base  =>
      let (f, view) := s.file.memMap range base
      some ⟨f, s.views ++ view.toList, s.mappings ++ [⟨range.offset, range.count, f.mappedPtr⟩]⟩
  | .memUnmap mapping   =>
      if s.mappings = [] ∨ mapping < s.mappings.length then
        let (f, ptrToUnmap) := s.file.memUnmap
        some ⟨f, unmapViewOfFile s.views ptrToUnmap, s.mappings.eraseIdx mapping⟩
      else none

/-- The bytes of the file that have been asked for are those from the pointer on. -/
def Visible (views : List View) (m : Mapping) : Prop :=
  ∃ ptr, m.ptr = some ptr ∧ ∃ v ∈ views, v.base ≤ ptr ∧ v.offset + (ptr - v.base) = m.offset ∧
    m.offset + m.count ≤ v.offset + v.size

/-- All mappings are visible, and with no mapping there is no view. -/
def Kept (s : State H) : Prop :=
  (∀ m ∈ s.mappings, Visible s.views m) ∧ (s.mappings = [] → s.views = [])

def Keeps (s : State H) (c : Call file) : Prop := ∀ s', step s c = some s' → Kept s'

/-! ### One view for all -/

/-- There is a view to be had, or the one there is has the range from its beginning on. -/
def Covered (s : State H) : Call file → Prop
  | .memMap range base =>
      if s.mappings = [] then s.file.fileMappingHandle ≠ none ∧ base ≠ none
      else ∃ v ∈ s.views, range.offset = v.offset ∧ range.count ≤ v.size
  | .memUnmap _ => True

/-- The counter counts the mappings. -/
def Counted (s : State H) : Call file → Prop
  | .memMap _ _ => s.mappings.length + 1 < 2 ^ 32
  | .memUnmap _ => True

/-- The calls of `memMap` share the view of the first. -/
structure Shared (f : WinFile H) (v : View) (mappings : List Mapping) : Prop where
  mappedPtr : f.mappedPtr = some v.base
  covered : ∀ m ∈ mappings, m.ptr = some v.base ∧ m.offset = v.offset ∧ m.count ≤ v.size

inductive Inv (s : State H) : Prop where
  | unmapped (hcounter : s.file.fileMappingCounter = 0) (hviews : s.views = [])
      (hmappings : s.mappings = [])
  | mapped (v : View) (hcounter : s.file.fileMappingCounter = s.mappings.length)
      (hviews : s.views = [v]) (hmappings : s.mappings ≠ []) (hshared : Shared s.file v s.mappings)

theorem offset_eq {offset : ℕ} (h : offset < 2 ^ 64) :
    offsetHigh offset * 2 ^ 32 + offsetLow offset = offset := by
  have hhigh : offsetHigh offset = offset / 2 ^ 32 := by
    rw [offsetHigh, Nat.shiftRight_and_distrib, Nat.shiftRight_eq_div_pow]
    have hlt : offset / 2 ^ 32 < 2 ^ 32 := by omega
    exact (Nat.and_two_pow_sub_one_eq_mod _ 32).trans (Nat.mod_eq_of_lt hlt)
  have hlow : offsetLow offset = offset % 2 ^ 32 := Nat.and_two_pow_sub_one_eq_mod offset 32
  rw [hhigh, hlow, Nat.mul_comm]
  exact Nat.div_add_mod offset (2 ^ 32)

/-- The view that is mapped for a range. -/
def viewOf (range : Range file) (base : ℕ) : View :=
  ⟨base, range.offset, if range.count = 0 then file.size - range.offset else range.count⟩

theorem mapViewOfFile_eq (handle : H) (range : Range file) (base : ℕ) :
    mapViewOfFile file (some handle) (offsetHigh range.offset) (offsetLow range.offset)
      range.count (some base) = some (viewOf range base) := by
  have hoffset := offset_eq (Nat.lt_trans range.offset_lt file.size_lt)
  simp only [mapViewOfFile, hoffset]
  rfl

theorem count_le_viewOf (range : Range file) (base : ℕ) :
    range.count ≤ (viewOf range base).size := by
  unfold viewOf
  split
  next hzero => simp [hzero]
  next => exact Nat.le_refl _

theorem mapViewOfFile_eq_none {handle : Option H} {high low mapSize : ℕ} {base : Option ℕ}
    (h : ¬ (handle ≠ none ∧ base ≠ none)) :
    mapViewOfFile file handle high low mapSize base = none := by
  cases handle with
  | none => rfl
  | some handle =>
      cases base with
      | none => rfl
      | some base => exact absurd ⟨Option.some_ne_none _, Option.some_ne_none _⟩ h

/-- At the beginning of a view. -/
theorem visible_iff {v : View} {offset count : ℕ} :
    Visible [v] ⟨offset, count, some v.base⟩ ↔ offset = v.offset ∧ count ≤ v.size := by
  constructor
  · rintro ⟨ptr, hptr, w, hw, -, hoffset, hend⟩
    obtain rfl := List.mem_singleton.1 hw
    cases hptr
    dsimp only at hoffset hend
    omega
  · rintro ⟨rfl, hcount⟩
    exact ⟨v.base, rfl, v, List.mem_singleton_self v, Nat.le_refl _, by simp, by simpa using hcount⟩

theorem not_visible_null {views : List View} {offset count : ℕ} :
    ¬ Visible views ⟨offset, count, none⟩ := by
  rintro ⟨ptr, hptr, -⟩
  cases hptr

variable {s s' : State H} {c : Call file}

theorem kept_of_inv (hs : Inv s) : Kept s := by
  cases hs with
  | unmapped _ hviews hmappings =>
      refine ⟨fun m hm => ?_, fun _ => hviews⟩
      rw [hmappings] at hm
      cases hm
  | mapped v _ hviews hmappings hshared =>
      refine ⟨fun m hm => ?_, fun h => absurd h hmappings⟩
      obtain ⟨hptr, hoffset, hcount⟩ := hshared.covered m hm
      rw [hviews]
      obtain ⟨offset, count, ptr⟩ := m
      obtain rfl : ptr = some v.base := hptr
      exact visible_iff.2 ⟨hoffset, hcount⟩

/-- The first `memMap` takes what the host maps for it. -/
theorem step_first {range : Range file} {base : Option ℕ} {view : Option View}
    (hcounter : s.file.fileMappingCounter = 0) (hmappings : s.mappings = [])
    (hview : mapViewOfFile file s.file.fileMappingHandle (offsetHigh range.offset)
      (offsetLow range.offset) range.count base = view) :
    step s (.memMap range base) = some {
      file := { s.file with fileMappingCounter := 1, mappedPtr := view.map View.base }
      views := s.views ++ view.toList
      mappings := [⟨range.offset, range.count, view.map View.base⟩] } := by
  simp only [step, WinFile.memMap, hcounter, hmappings, hview, List.nil_append]
  rfl

/-- One that is not the first takes what there is. -/
theorem step_further {range : Range file} {base : Option ℕ} {v : View}
    (hcounter : s.file.fileMappingCounter = s.mappings.length) (hmappings : s.mappings ≠ [])
    (hptr : s.file.mappedPtr = some v.base) (hcounted : Counted s (.memMap range base)) :
    step s (.memMap range base) = some {
      file := { s.file with fileMappingCounter := s.mappings.length + 1 }
      views := s.views
      mappings := s.mappings ++ [⟨range.offset, range.count, some v.base⟩] } := by
  have hpos : 0 < s.mappings.length := List.length_pos_iff.2 hmappings
  have hmod : (s.file.fileMappingCounter + 1) % 2 ^ 32 = s.mappings.length + 1 := by
    rw [hcounter]
    exact Nat.mod_eq_of_lt hcounted
  have hne : s.mappings.length + 1 ≠ 1 := by omega
  simp only [step, WinFile.memMap, hmod, hne, if_false, hptr, Option.toList_none, List.append_nil]

theorem inv_memMap {range : Range file} {base : Option ℕ} (hs : Inv s)
    (hcovered : Covered s (.memMap range base)) (hcounted : Counted s (.memMap range base))
    (h : step s (.memMap range base) = some s') : Inv s' := by
  cases hs with
  | unmapped hcounter hviews hmappings =>
      rw [Covered, if_pos hmappings] at hcovered
      obtain ⟨handle, hhandle⟩ := Option.ne_none_iff_exists'.1 hcovered.1
      obtain ⟨address, rfl⟩ := Option.ne_none_iff_exists'.1 hcovered.2
      have hview := mapViewOfFile_eq handle range address
      rw [← hhandle] at hview
      rw [step_first hcounter hmappings hview] at h
      obtain rfl := Option.some.inj h
      refine .mapped (viewOf range address) rfl ?_ (List.cons_ne_nil _ _) ⟨rfl, fun m hm => ?_⟩
      · rw [hviews]
        rfl
      · obtain rfl := List.mem_singleton.1 hm
        exact ⟨rfl, rfl, count_le_viewOf range address⟩
  | mapped v hcounter hviews hmappings hshared =>
      rw [Covered, if_neg hmappings, hviews] at hcovered
      rw [step_further hcounter hmappings hshared.mappedPtr hcounted] at h
      obtain rfl := Option.some.inj h
      refine .mapped v (by simp) hviews (by simp) ⟨hshared.mappedPtr, fun m hm => ?_⟩
      rcases List.mem_append.1 hm with hm | hm
      · exact hshared.covered m hm
      · obtain rfl := List.mem_singleton.1 hm
        obtain ⟨w, hw, hrange⟩ := hcovered
        obtain rfl := List.mem_singleton.1 hw
        exact ⟨rfl, hrange⟩

theorem inv_memUnmap {mapping : ℕ} (hs : Inv s)
    (h : step s (.memUnmap mapping : Call file) = some s') : Inv s' := by
  simp only [step] at h
  split at h
  next hmatch =>
    obtain rfl := Option.some.inj h
    cases hs with
    | unmapped hcounter hviews hmappings =>
        rw [WinFile.memUnmap, if_pos hcounter]
        exact .unmapped hcounter hviews (by rw [hmappings]; rfl)
    | mapped v hcounter hviews hmappings hshared =>
        have hlt := hmatch.resolve_left hmappings
        have hpos : 0 < s.file.fileMappingCounter := by
          rw [hcounter]
          exact List.length_pos_iff.2 hmappings
        have hlength := List.length_eraseIdx_of_lt hlt
        rw [WinFile.memUnmap, if_neg (Nat.ne_of_gt hpos)]
        dsimp only
        rw [hcounter, ← hlength]
        by_cases hlast : 0 < (s.mappings.eraseIdx mapping).length
        · -- others have it mapped
          rw [if_pos hlast]
          refine .mapped v rfl hviews (List.length_pos_iff.1 hlast) ⟨hshared.mappedPtr, ?_⟩
          exact fun m hm => hshared.covered m (List.mem_of_mem_eraseIdx hm)
        · have hzero := Nat.eq_zero_of_not_pos hlast
          rw [if_neg hlast, hshared.mappedPtr, hviews]
          exact .unmapped hzero (by simp [unmapViewOfFile]) (List.length_eq_zero_iff.1 hzero)
  next => cases h

theorem inv_step (hs : Inv s) (hcovered : Covered s c) (hcounted : Counted s c)
    (h : step s c = some s') : Inv s' := by
  cases c with
  | memMap range base => exact inv_memMap hs hcovered hcounted h
  | memUnmap mapping => exact inv_memUnmap hs h

theorem covered_of_keeps (hs : Inv s) (hcounted : Counted s c) (hkeeps : Keeps s c) :
    Covered s c := by
  cases c with
  | memUnmap mapping => trivial
  | memMap range base =>
      cases hs with
      | unmapped hcounter hviews hmappings =>
          rw [Covered, if_pos hmappings]
          refine Classical.byContradiction fun hnone => ?_
          have hkept := hkeeps _ (step_first hcounter hmappings (mapViewOfFile_eq_none hnone))
          exact not_visible_null (hkept.1 _ (List.mem_singleton_self _))
      | mapped v hcounter hviews hmappings hshared =>
          have hkept := hkeeps _
            (step_further hcounter hmappings hshared.mappedPtr hcounted)
          have hvisible := hkept.1 _ (List.mem_append_right _ (List.mem_singleton_self _))
          rw [hviews] at hvisible
          rw [Covered, if_neg hmappings, hviews]
          exact ⟨v, List.mem_singleton_self v, visible_iff.1 hvisible⟩

/-- What a `WinFile` is as it is opened, with a mapping handle or without. -/
def opened (fileMappingHandle : Option H) : State H where
  file := { fileMappingHandle }

theorem inv_opened (handle : Option H) : Inv (opened handle) := .unmapped rfl rfl rfl

/-- With fewer than `2 ^ 32` mappings at a time, a file **keeps its mappings** if and only if the
host has a view for the first `memMap`, and all others ask for a range that this one begins with. -/
theorem sharedView_iff (handle : Option H) (calls : List (Call file))
    (h : Allowed step Counted (opened handle) calls) :
    Allowed step Keeps (opened handle) calls ↔ Allowed step Covered (opened handle) calls := by
  refine allowed_congr (P := Inv) ?_ ?_ calls (inv_opened handle) h
  · intro s c s' hs hcounted hkeeps h
    exact inv_step hs (covered_of_keeps hs hcounted hkeeps) hcounted h
  · intro s c hs hcounted
    refine ⟨covered_of_keeps hs hcounted, fun hcovered s' h => ?_⟩
    exact kept_of_inv (inv_step hs hcovered hcounted h)

/-- A second range is not where the first one is. -/
example : ¬ Keeps
    ({ file := ⟨some (), 1, some 100⟩, views := [⟨100, 0, 8⟩], mappings := [⟨0, 8, some 100⟩] } :
      State Unit)
    (.memMap ⟨4, 4, by decide, by decide⟩ none : Call ⟨8, by decide⟩) := by
  intro h
  have hvisible := (h _ rfl).1 ⟨4, 4, some 100⟩ (by simp)
  cases (@visible_iff ⟨100, 0, 8⟩ 4 4).1 hvisible |>.1

/-! ### A file as it is opened -/

def NotMapped (_ : State H) : Call file → Prop
  | .memMap _ _ => False
  | .memUnmap _ => True

/-- There is no mapping, and no handle to make one of. -/
structure Unmappable (s : State H) : Prop where
  inv : Inv s
  handle : s.file.fileMappingHandle = none
  mappings : s.mappings = []

theorem keeps_iff_notMapped (hs : Unmappable s) : Keeps s c ↔ NotMapped s c := by
  cases c with
  | memMap range base =>
      refine iff_of_false (fun hkeeps => ?_) id
      have hcounted : Counted s (.memMap range base) := by
        rw [Counted, hs.mappings]
        decide
      have hcovered := covered_of_keeps hs.inv hcounted hkeeps
      rw [Covered, if_pos hs.mappings] at hcovered
      exact hcovered.1 hs.handle
  | memUnmap mapping => exact iff_of_true (fun s' h => kept_of_inv (inv_memUnmap hs.inv h)) trivial

theorem unmappable_memUnmap {mapping : ℕ} (hs : Unmappable s)
    (h : step s (.memUnmap mapping : Call file) = some s') : Unmappable s' := by
  have hinv := inv_memUnmap hs.inv h
  simp only [step, hs.mappings, true_or, if_true] at h
  obtain rfl := Option.some.inj h
  refine ⟨hinv, ?_, rfl⟩
  unfold WinFile.memUnmap
  split <;> exact hs.handle

/-- **No mapping is kept**: nothing gives the file a mapping handle, so that in a sequence of calls
what is mapped can be seen, and goes with its last `memUnmap`, if and only if nothing is. -/
theorem mapped_iff (calls : List (Call file)) :
    Allowed step Keeps (opened none : State H) calls ↔
      Allowed step NotMapped (opened none : State H) calls := by
  refine allowed_congr (P := Unmappable) ?_ (fun _ hs _ => keeps_iff_notMapped hs) calls
    ⟨inv_opened none, rfl, rfl⟩ (allowed_free calls _)
  intro s c s' hs _ hkeeps h
  cases c with
  | memMap range base => exact (keeps_iff_notMapped hs).1 hkeeps |>.elim
  | memUnmap mapping => exact unmappable_memUnmap hs h

/-- The first byte of a file. -/
theorem not_mapped : ¬ ∀ (file : File) (calls : List (Call file)),
    Allowed step Keeps (opened none : State Unit) calls := by
  intro h
  obtain ⟨hkeeps, -⟩ := h ⟨1, by decide⟩ [.memMap ⟨0, 1, by decide, by decide⟩ (some 100)]
  exact not_visible_null ((hkeeps _ rfl).1 _ (List.mem_singleton_self _))

end MyEngine.Io.Mapping
