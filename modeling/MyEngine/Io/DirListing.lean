import Mathlib.Data.List.Nodup
import Mathlib.Data.List.TakeWhile
import MyEngine.Io.DirIterator

/-!
# Io — DirListing

What a directory iterator of the virtual file system goes through, against what the mounts say
the directory has.

`Yields` is the iteration without fuel; `yields_iff` says when it ends, and with which entries:
the file systems up to the first one where the directory is there and empty have to be different
objects, and nothing after that one is listed.
-/

namespace MyEngine.Io

variable {ι : Type}

/-! ### The iteration over the file systems of one node -/

section Multi
variable (fs : ι → FileSystem) (base rel : FsPath) (dir : FsNode ι)

/-- The file system has the directory. -/
def HasDir (f : ι) : Prop := (fs f).pathExists rel (some .directory) = true

/-- It has the directory, and nothing in it. -/
def EmptyDir (f : ι) : Prop := HasDir fs rel f ∧ (fs f).dirEntries rel = []

/-- The entries of the directory in the file system, as the virtual one shows them. -/
def shown (f : ι) : List FsEntry :=
  ((fs f).dirEntries rel).map (MultiFsDirIteratorImpl.rebase base)

instance : DecidablePred (HasDir fs rel) := fun f =>
  inferInstanceAs (Decidable ((fs f).pathExists rel (some .directory) = true))

instance : DecidablePred (EmptyDir fs rel) := fun f =>
  inferInstanceAs (Decidable (HasDir fs rel f ∧ (fs f).dirEntries rel = []))

/-- What the file system adds to the directory. -/
def listed (f : ι) : List FsEntry := if HasDir fs rel f then shown fs base rel f else []

/-- The search for the next file system after `current` and everything after it yields these
entries. -/
inductive Yields [DecidableEq ι] : Option ι → List FsEntry → Prop where
  | done {current : Option ι} (h : dir.getNextMountedFs current = none) : Yields current []
  | skip {current : Option ι} {f : ι} {es : List FsEntry}
      (h : dir.getNextMountedFs current = some f) (hd : ¬ HasDir fs rel f)
      (y : Yields (some f) es) : Yields current es
  | stop {current : Option ι} {f : ι} (h : dir.getNextMountedFs current = some f)
      (hd : EmptyDir fs rel f) : Yields current []
  | through {current : Option ι} {f : ι} {es : List FsEntry}
      (h : dir.getNextMountedFs current = some f) (hd : HasDir fs rel f)
      (hne : (fs f).dirEntries rel ≠ []) (y : Yields (some f) es) :
      Yields current (shown fs base rel f ++ es)

end Multi

section Fuel
variable [DecidableEq ι] {fs : ι → FileSystem} {base rel : FsPath} {dir : FsNode ι}

/-- The iterator over the file systems of a node, standing at `iter`. -/
abbrev standing (base rel : FsPath) (dir : FsNode ι)
    (iter : Option (ι × List FsEntry × FsEntry)) : MultiFsDirIteratorImpl ι :=
  ⟨base, rel, dir, iter⟩

/-- A search that ends: at the end, at a file system where the directory is empty, or at the
first entry of one where it is not; in each case the rest of the iteration adds up. -/
theorem getNextFsIterator_sound {fuel : Nat} {current : Option ι}
    {iter : Option (ι × List FsEntry × FsEntry)} {it' : MultiFsDirIteratorImpl ι}
    (h : (standing base rel dir iter).getNextFsIterator fs fuel current = some it') :
    ∃ iter', it' = standing base rel dir iter' ∧
      match iter' with
      | none => Yields fs base rel dir current []
      | some (f, rest, e) => ∀ es, Yields fs base rel dir (some f) es →
          Yields fs base rel dir current
            (e :: rest.map (MultiFsDirIteratorImpl.rebase base) ++ es) := by
  induction fuel generalizing current with
  | zero =>
      rw [MultiFsDirIteratorImpl.getNextFsIterator,
        MultiFsDirIteratorImpl.getNextFsContainingPath] at h
      cases h
  | succ fuel ih =>
      rw [MultiFsDirIteratorImpl.getNextFsIterator,
        MultiFsDirIteratorImpl.getNextFsContainingPath] at h
      cases hn : dir.getNextMountedFs current with
      | none =>
          simp only [hn, Option.some.injEq] at h
          exact ⟨none, h.symm, .done hn⟩
      | some f =>
          by_cases hd : HasDir fs rel f
          · simp only [hn, show (fs f).pathExists rel (some .directory) = true from hd,
              ↓reduceIte] at h
            cases he : (fs f).dirEntries rel with
            | nil =>
                simp only [FileSystem.openDirIterator, he, Option.some.injEq] at h
                exact ⟨none, h.symm, .stop hn ⟨hd, he⟩⟩
            | cons e rest =>
                simp only [FileSystem.openDirIterator, he, Option.some.injEq] at h
                refine ⟨some (f, rest, MultiFsDirIteratorImpl.rebase base e), h.symm,
                  fun es y => ?_⟩
                have := Yields.through hn hd (by rw [he]; simp) y
                rwa [shown, he] at this
          · have hd' : (fs f).pathExists rel (some .directory) = false := by
              simpa [HasDir] using hd
            simp only [hn, hd', Bool.false_eq_true, ↓reduceIte] at h
            obtain ⟨iter', rfl, hy⟩ := @ih (some f) h
            refine ⟨iter', rfl, ?_⟩
            cases iter' with
            | none => exact .skip hn hd hy
            | some i => exact fun es y => .skip hn hd (hy es y)

/-- The iterator standing at an entry goes through the rest of its file system and on. -/
theorem entriesFrom_sound {inner fuel : Nat} {f : ι} {rest es : List FsEntry} {e : FsEntry}
    (h : VirtualFileSystemImpl.entriesFrom fs inner fuel
      (.multi (standing base rel dir (some (f, rest, e)))) = some es) :
    ∃ es', Yields fs base rel dir (some f) es' ∧
      es = e :: rest.map (MultiFsDirIteratorImpl.rebase base) ++ es' := by
  induction fuel generalizing f rest e es with
  | zero => cases h
  | succ fuel ih =>
      simp only [VirtualFileSystemImpl.entriesFrom, DirIteratorImpl.getCurrent,
        MultiFsDirIteratorImpl.getCurrent, Option.map_some, DirIteratorImpl.increment,
        MultiFsDirIteratorImpl.increment] at h
      cases rest with
      | cons e' rest =>
          simp only [incrementDirIterator, Option.map_some, Option.map_eq_some_iff] at h
          obtain ⟨es₁, h₁, rfl⟩ := h
          obtain ⟨es', hy, rfl⟩ := ih h₁
          exact ⟨es', hy, rfl⟩
      | nil =>
          simp only [incrementDirIterator] at h
          cases hn :
              (standing base rel dir (some (f, [], e))).getNextFsIterator fs inner (some f) with
          | none => simp [hn] at h
          | some it' =>
              simp only [hn, Option.map_some, Option.map_eq_some_iff] at h
              obtain ⟨es₁, h₁, rfl⟩ := h
              obtain ⟨iter', rfl, hy⟩ := getNextFsIterator_sound hn
              cases iter' with
              | none =>
                  cases fuel with
                  | zero => cases h₁
                  | succ fuel => exact ⟨[], hy, by rw [← Option.some.inj h₁]; rfl⟩
              | some i =>
                  obtain ⟨es', hy', rfl⟩ := ih h₁
                  exact ⟨_, hy es' hy', rfl⟩

/-- What is left in the current file system, before what comes after it. -/
theorem entriesFrom_rest {inner k : Nat} {f : ι} {es : List FsEntry}
    (h : ∀ iter, ∃ it',
      (standing base rel dir iter).getNextFsIterator fs inner (some f) = some it' ∧
      ∀ fuel, k ≤ fuel →
        VirtualFileSystemImpl.entriesFrom fs inner fuel (.multi it') = some es)
    (rest : List FsEntry) (e : FsEntry) {fuel : Nat} (hfuel : k + rest.length + 1 ≤ fuel) :
    VirtualFileSystemImpl.entriesFrom fs inner fuel
      (.multi (standing base rel dir (some (f, rest, e)))) =
        some (e :: rest.map (MultiFsDirIteratorImpl.rebase base) ++ es) := by
  induction rest generalizing e fuel with
  | nil =>
      obtain ⟨it', hn, hes⟩ := h (some (f, [], e))
      obtain ⟨fuel, rfl⟩ := Nat.exists_eq_add_of_le' (Nat.le_of_add_left_le hfuel)
      have := hes fuel (Nat.le_of_succ_le_succ hfuel)
      simp [VirtualFileSystemImpl.entriesFrom, DirIteratorImpl.getCurrent,
        MultiFsDirIteratorImpl.getCurrent, DirIteratorImpl.increment,
        MultiFsDirIteratorImpl.increment, incrementDirIterator, hn, this]
  | cons e' rest ih =>
      obtain ⟨fuel, rfl⟩ := Nat.exists_eq_add_of_le' (Nat.le_of_add_left_le hfuel)
      have := ih (MultiFsDirIteratorImpl.rebase base e') (Nat.le_of_succ_le_succ hfuel)
      simpa [VirtualFileSystemImpl.entriesFrom, DirIteratorImpl.getCurrent,
        MultiFsDirIteratorImpl.getCurrent, DirIteratorImpl.increment,
        MultiFsDirIteratorImpl.increment, incrementDirIterator] using this

/-- With enough fuel the search ends, and so does the iteration after it. -/
theorem Yields.complete {current : Option ι} {es : List FsEntry}
    (y : Yields fs base rel dir current es) :
    ∃ k, ∀ search inner, k ≤ search → k ≤ inner → ∀ iter, ∃ it',
      (standing base rel dir iter).getNextFsIterator fs search current = some it' ∧
        ∀ fuel, k ≤ fuel →
          VirtualFileSystemImpl.entriesFrom fs inner fuel (.multi it') = some es := by
  have hend : ∀ inner fuel, 1 ≤ fuel → VirtualFileSystemImpl.entriesFrom fs inner fuel
      (.multi (standing base rel dir none)) = some [] := fun inner fuel hfuel => by
    obtain ⟨fuel, rfl⟩ := Nat.exists_eq_add_of_le' hfuel
    rfl
  induction y with
  | done h =>
      refine ⟨1, fun search inner hs _ iter => ⟨standing base rel dir none, ?_, hend inner⟩⟩
      obtain ⟨search, rfl⟩ := Nat.exists_eq_add_of_le' hs
      simp [MultiFsDirIteratorImpl.getNextFsIterator,
        MultiFsDirIteratorImpl.getNextFsContainingPath, h]
  | skip h hd y ih =>
      obtain ⟨k, ih⟩ := ih
      refine ⟨k + 1, fun search inner hs hi iter => ?_⟩
      obtain ⟨search, rfl⟩ := Nat.exists_eq_add_of_le' (Nat.le_of_add_left_le hs)
      obtain ⟨it', hn, hes⟩ := ih search inner (Nat.le_of_succ_le_succ hs) (by omega) iter
      refine ⟨it', ?_, fun fuel hfuel => hes fuel (by omega)⟩
      rw [← hn]
      simp only [HasDir, Bool.not_eq_true] at hd
      simp [MultiFsDirIteratorImpl.getNextFsIterator,
        MultiFsDirIteratorImpl.getNextFsContainingPath, h, hd]
  | stop h hd =>
      refine ⟨1, fun search inner hs _ iter => ⟨standing base rel dir none, ?_, hend inner⟩⟩
      obtain ⟨search, rfl⟩ := Nat.exists_eq_add_of_le' hs
      obtain ⟨hd, he⟩ := hd
      rw [HasDir] at hd
      simp [MultiFsDirIteratorImpl.getNextFsIterator,
        MultiFsDirIteratorImpl.getNextFsContainingPath, h, hd, FileSystem.openDirIterator, he]
  | through h hd hne y ih =>
      next f es =>
        obtain ⟨k, ih⟩ := ih
        obtain ⟨e, rest, he⟩ := List.exists_cons_of_ne_nil hne
        refine ⟨k + rest.length + 1, fun search inner hs hi iter => ?_⟩
        obtain ⟨search, rfl⟩ := Nat.exists_eq_add_of_le' (Nat.le_of_add_left_le hs)
        refine ⟨standing base rel dir
          (some (f, rest, MultiFsDirIteratorImpl.rebase base e)), ?_, fun fuel hfuel => ?_⟩
        · rw [HasDir] at hd
          simp [MultiFsDirIteratorImpl.getNextFsIterator,
            MultiFsDirIteratorImpl.getNextFsContainingPath, h, hd, FileSystem.openDirIterator, he]
        · rw [shown, he]
          exact entriesFrom_rest (ih inner inner (by omega) (by omega)) rest _ hfuel

end Fuel

/-! ### When the iteration ends -/

section Ends
variable {fs : ι → FileSystem} {base rel : FsPath}

/-- Different objects, in none of which the directory is empty. -/
def Clean (fs : ι → FileSystem) (rel : FsPath) (A : List ι) : Prop :=
  A.Nodup ∧ ∀ f ∈ A, ¬ EmptyDir fs rel f

/-- The iteration is over, or the next file system has the directory empty. -/
def Halts (fs : ι → FileSystem) (rel : FsPath) (B : List ι) : Prop :=
  ∀ f, B.head? = some f → EmptyDir fs rel f

theorem listed_of_not {f : ι} (h : ¬ HasDir fs rel f) : listed fs base rel f = [] := if_neg h

theorem listed_of_has {f : ι} (h : HasDir fs rel f) : listed fs base rel f = shown fs base rel f :=
  if_pos h

theorem Clean.concat {A : List ι} {f : ι} (hA : Clean fs rel A) (hf : f ∉ A)
    (hd : ¬ EmptyDir fs rel f) : Clean fs rel (A ++ [f]) := by
  refine ⟨?_, fun g hg => ?_⟩
  · rw [List.nodup_append]
    exact ⟨hA.1, List.nodup_singleton f, fun a ha b hb hab =>
      hf (List.mem_singleton.mp hb ▸ hab ▸ ha)⟩
  · rcases List.mem_append.mp hg with hg | hg
    · exact hA.2 g hg
    · exact List.mem_singleton.mp hg ▸ hd

theorem takeWhile_clean {B₁ B₂ : List ι} (h₁ : Clean fs rel B₁) (h₂ : Halts fs rel B₂) :
    ((B₁ ++ B₂).takeWhile fun f => ¬ EmptyDir fs rel f) = B₁ := by
  rw [List.takeWhile_append_of_pos fun f hf => by simpa using h₁.2 f hf]
  cases B₂ with
  | nil => simp
  | cons f B₂ => simp [h₂ f rfl]

variable [DecidableEq ι] {dir : FsNode ι}

theorem nextMounted_eq {l : List (FileSystemEntry ι)} {A B : List ι} {c : ι}
    (h : l.map (·.fs) = A ++ c :: B) (hc : c ∉ A) : FsNode.nextMounted c l = B.head? := by
  induction l generalizing A with
  | nil => simp at h
  | cons e l ih =>
      rw [FsNode.nextMounted]
      cases A with
      | nil =>
          rw [List.map_cons, List.nil_append] at h
          obtain ⟨he, hl⟩ := List.cons.inj h
          rw [if_pos he, ← hl, List.head?_map]
      | cons a A =>
          rw [List.map_cons, List.cons_append] at h
          obtain ⟨rfl, hl⟩ := List.cons.inj h
          rw [if_neg fun he : e.fs = c => hc (he ▸ List.mem_cons_self)]
          exact ih hl fun hm => hc (List.mem_cons_of_mem _ hm)

/-- After file systems that are all different objects comes the next in the list. -/
theorem getNextMountedFs_getLast? {A B : List ι} (h : dir.mountedFs.map (·.fs) = A ++ B)
    (hA : A.Nodup) : dir.getNextMountedFs A.getLast? = B.head? := by
  rcases List.eq_nil_or_concat A with rfl | ⟨A', c, rfl⟩
  · show dir.mountedFs.head?.map _ = _
    rw [← List.head?_map, h, List.nil_append]
  · rw [List.concat_eq_append] at h hA ⊢
    rw [List.getLast?_concat]
    rw [List.append_assoc] at h
    refine nextMounted_eq h fun hm => ?_
    exact (List.nodup_append.mp hA).2.2 c hm c List.mem_cons_self rfl

/-- One file system more.  Were it one of `A` already, the iteration would go on from its first
place in the list, and so would not end: it comes to the same file system again. -/
theorem clean_step {A B : List ι} {f : ι} {es : List FsEntry}
    (h : dir.mountedFs.map (·.fs) = A ++ f :: B) (hA : Clean fs rel A) (hd : ¬ EmptyDir fs rel f)
    (ih : ∀ {A B : List ι}, some f = A.getLast? → dir.mountedFs.map (·.fs) = A ++ B →
      Clean fs rel A → ∃ B₁ B₂, B = B₁ ++ B₂ ∧ Clean fs rel (A ++ B₁) ∧ Halts fs rel B₂ ∧
        es = B₁.flatMap (listed fs base rel)) :
    ∃ B₁ B₂, f :: B = B₁ ++ B₂ ∧ Clean fs rel (A ++ B₁) ∧ Halts fs rel B₂ ∧
      listed fs base rel f ++ es = B₁.flatMap (listed fs base rel) := by
  by_cases hf : f ∈ A
  · exfalso
    obtain ⟨A₁, A₂, rfl⟩ := List.append_of_mem hf
    have hA₁ : Clean fs rel (A₁ ++ [f]) := by
      refine ⟨hA.1.sublist ?_, fun g hg => hA.2 g ?_⟩
      · exact List.Sublist.append (.refl _) (by simp)
      · rcases List.mem_append.mp hg with hg | hg <;> simp_all
    obtain ⟨B₁, B₂, hB, hcl, hh, -⟩ := ih (A := A₁ ++ [f]) (B := A₂ ++ f :: B)
      (List.getLast?_concat).symm (by rw [h]; simp) hA₁
    rcases List.append_eq_append_iff.mp hB with ⟨X, rfl, hX⟩ | ⟨X, rfl, rfl⟩
    · cases X with
      | nil => exact hd (hh f (by rw [← List.nil_append B₂, ← hX]; rfl))
      | cons g X =>
          obtain ⟨rfl, -⟩ := List.cons.inj hX
          have := hcl.1
          simp [List.nodup_append] at this
    · cases X with
      | nil => exact hd (hh f rfl)
      | cons g X => exact hA.2 g (by simp) (hh g rfl)
  · obtain ⟨B₁, B₂, rfl, hcl, hh, rfl⟩ := ih (A := A ++ [f]) (B := B)
      (List.getLast?_concat).symm (by rw [h]; simp) (hA.concat hf hd)
    exact ⟨f :: B₁, B₂, rfl, by simpa using hcl, hh, rfl⟩

/-- An iteration that ends, after a clean part `A` of the list, has gone through a clean part of
the rest. -/
theorem Yields.clean {current : Option ι} {es : List FsEntry}
    (y : Yields fs base rel dir current es) {A B : List ι} (hc : current = A.getLast?)
    (h : dir.mountedFs.map (·.fs) = A ++ B) (hA : Clean fs rel A) :
    ∃ B₁ B₂, B = B₁ ++ B₂ ∧ Clean fs rel (A ++ B₁) ∧ Halts fs rel B₂ ∧
      es = B₁.flatMap (listed fs base rel) := by
  induction y generalizing A B with
  | done hn =>
      rw [hc, getNextMountedFs_getLast? h hA.1, List.head?_eq_none_iff] at hn
      exact ⟨[], B, rfl, by rwa [List.append_nil], by simp [hn, Halts], rfl⟩
  | skip hn hd y ih =>
      rw [hc, getNextMountedFs_getLast? h hA.1] at hn
      obtain ⟨B, rfl⟩ := List.head?_eq_some_iff.mp hn
      have := clean_step h hA (fun he => hd he.1) ih
      rwa [listed_of_not hd, List.nil_append] at this
  | stop hn hd =>
      rw [hc, getNextMountedFs_getLast? h hA.1] at hn
      refine ⟨[], B, rfl, by rwa [List.append_nil], fun g hg => ?_, rfl⟩
      rw [hn] at hg
      exact Option.some.inj hg ▸ hd
  | through hn hd hne y ih =>
      rw [hc, getNextMountedFs_getLast? h hA.1] at hn
      obtain ⟨B, rfl⟩ := List.head?_eq_some_iff.mp hn
      have := clean_step h hA (fun he => hne he.2) ih
      rwa [listed_of_has hd] at this

/-- The iteration over a clean part of the list, up to where it halts. -/
theorem yields_of_clean {A B C : List ι} (h : dir.mountedFs.map (·.fs) = A ++ (B ++ C))
    (hA : Clean fs rel (A ++ B)) (hB : Halts fs rel C) :
    Yields fs base rel dir A.getLast? (B.flatMap (listed fs base rel)) := by
  induction B generalizing A with
  | nil =>
      rw [List.append_nil] at hA
      have hn := getNextMountedFs_getLast? h hA.1
      cases C with
      | nil => exact .done hn
      | cons f C => exact .stop hn (hB f rfl)
  | cons f B ih =>
      have hn := getNextMountedFs_getLast? h (List.nodup_append.mp hA.1).1
      have hA' : Clean fs rel (A ++ [f] ++ B) := by simpa using hA
      have y := ih (A := A ++ [f]) (by simpa using h) hA'
      rw [List.getLast?_concat] at y
      rw [List.flatMap_cons]
      by_cases hd : HasDir fs rel f
      · rw [listed_of_has hd]
        exact .through hn hd (fun he => hA.2 f (by simp) ⟨hd, he⟩) y
      · rw [listed_of_not hd, List.nil_append]
        exact .skip hn hd y

/-- **When the iteration over the file systems of a node ends, and with what.** -/
theorem yields_iff {es : List FsEntry} :
    Yields fs base rel dir none es ↔
      let l := (dir.mountedFs.map (·.fs)).takeWhile fun f => ¬ EmptyDir fs rel f
      l.Nodup ∧ es = l.flatMap (listed fs base rel) := by
  constructor
  · intro y
    obtain ⟨B₁, B₂, hl, hcl, hh, rfl⟩ := y.clean (A := []) rfl rfl ⟨.nil, by simp⟩
    rw [List.nil_append] at hcl
    rw [hl, takeWhile_clean hcl hh]
    exact ⟨hcl.1, rfl⟩
  · rintro ⟨hn, rfl⟩
    refine yields_of_clean (A := []) (C := (dir.mountedFs.map (·.fs)).dropWhile
      fun f => ¬ EmptyDir fs rel f) List.takeWhile_append_dropWhile.symm ⟨hn, fun f hf => ?_⟩
      fun f hf => ?_
    · simpa using List.mem_takeWhile_imp hf
    · have := List.head?_dropWhile_not (fun f => ¬ EmptyDir fs rel f) (dir.mountedFs.map (·.fs))
      rw [hf] at this
      simpa using this

end Ends

end MyEngine.Io
