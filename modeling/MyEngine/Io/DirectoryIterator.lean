import Mathlib.Data.List.Count
import MyEngine.Io.DirIterator
import MyEngine.Support.Runs

/-!
# Io — DirectoryIterator

`DirectoryIterator`: the object that a loop over a directory goes through, with the state that the
file system keeps for it, and the iterator that has the current entry.

* `DirectoryIterator`, `increment`: the state of the file system.
* `Iterator`: what `begin` returns and the operators change.
* `step`: the loop dereferences its iterator, moves it, and increments it in either way.
* `iteratesListing_iff`: which loops go through the listing.
-/

namespace MyEngine.Io

/-- `m_iteratorState`, with the numbers of times it was opened and closed. -/
structure DirectoryIterator where
  iteratorState : Option (List FsEntry) := none
  opened : ℕ := 0
  closed : ℕ := 0

/-- `DirectoryIterator::iterator`: whether it has a parent, and the entry, if that is not empty. -/
structure DirectoryIterator.Iterator where
  parent : Bool := false
  fsEntry : Option FsEntry := none
  deriving DecidableEq

namespace DirectoryIterator

def increment (dir : DirectoryIterator) : DirectoryIterator × Option FsEntry :=
  match dir.iteratorState with
  | none      => (dir, none)
  | some rest =>
      match incrementDirIterator rest with
      | none           => ({ dir with iteratorState := some [] }, none)
      | some (rest, e) => ({ dir with iteratorState := some rest }, some e)

/-- The destructor. -/
def destroy (dir : DirectoryIterator) : DirectoryIterator :=
  { dir with closed := if dir.iteratorState.isSome then dir.closed + 1 else dir.closed }

/-- The move constructor takes the parent. -/
def Iterator.move (other : Iterator) : Iterator := { parent := other.parent }

/-- A loop: the iterator it has now, and how often one was incremented. -/
structure Loop where
  dir : DirectoryIterator := {}
  it : Iterator := {}
  position : ℕ := 0

/-- What a loop does with its iterator.  The object that a post-increment returns is a local
variable of the operator, which a compiler may put in its place or move there. -/
inductive Action where
  | dereference
  | move
  | preIncrement
  | postIncrement (elided : Bool)
  deriving DecidableEq, Repr

def Action.increments : Action → Bool
  | preIncrement | postIncrement _ => true
  | dereference | move             => false

/-- `start`. -/
def start (fs : FileSystem) (path : FsPath) : Loop :=
  match fs.openDirIterator path with
  | none           => {}
  | some (rest, e) => { dir := { iteratorState := some rest, opened := 1 }, it := ⟨true, some e⟩ }

namespace Loop

/-- `operator++()`. -/
def advance (s : Loop) : Loop where
  dir := s.dir.increment.1
  it := ⟨s.dir.increment.2.isSome, s.dir.increment.2⟩
  position := s.position + 1

/-- What `operator++(int)` returns. -/
def temp (s : Loop) (elided : Bool) : Iterator :=
  if elided then ⟨s.it.parent, s.it.fsEntry⟩ else Iterator.move ⟨s.it.parent, s.it.fsEntry⟩

end Loop

/-- An iterator at the end is neither dereferenced nor incremented. -/
def step (s : Loop) : Action → Option Loop
  | .dereference     => if s.it.parent then some s else none
  | .move            => some { s with it := s.it.move }
  | .preIncrement    => if s.it.parent then some s.advance else none
  | .postIncrement _ => if s.it.parent then some s.advance else none

/-! ### The listing -/

/-- The iterator has the entry that comes next in the listing, or is at its end. -/
def At (listing : List FsEntry) (s : Loop) : Prop :=
  s.it = ⟨listing[s.position]?.isSome, listing[s.position]?⟩

/-- What the loop gets from a step is what is there in the listing, and what it has afterwards. -/
def Right (listing : List FsEntry) (s : Loop) : Action → Prop
  | .dereference          => s.it.fsEntry = listing[s.position]?
  | .move                 => At listing { s with it := s.it.move }
  | .preIncrement         => s.it.parent = true → At listing s.advance
  | .postIncrement elided => s.it.parent = true →
      (s.temp elided).fsEntry = listing[s.position]? ∧ At listing s.advance

/-- Only iterators at the end are moved. -/
def Kept (s : Loop) : Action → Prop
  | .move                 => s.it.parent = false
  | .postIncrement elided => s.it.parent = true → elided = true
  | _                     => True

/-- What is so in every loop: what the file system has still to give, and that it was opened. -/
structure Opened (listing : List FsEntry) (s : Loop) : Prop where
  state : s.dir.iteratorState =
    if listing = [] then none else some (listing.drop (s.position + 1))
  parent : s.it.parent = listing[s.position]?.isSome
  le : s.position ≤ listing.length
  opened : s.dir.opened = if listing = [] then 0 else 1
  closed : s.dir.closed = 0

variable {listing : List FsEntry} {s s' : Loop} {a : Action}

/-- The entry after the current one is what the file system gives. -/
theorem Opened.increment (hs : Opened listing s) (hparent : s.it.parent = true) :
    s.dir.increment.2 = listing[s.position + 1]? ∧
      s.dir.increment.1 = { s.dir with iteratorState := some (listing.drop (s.position + 2)) } := by
  have hlt : s.position < listing.length := by
    rw [hs.parent] at hparent
    exact (List.getElem?_eq_some_iff.1 (Option.isSome_iff_exists.1 hparent).choose_spec).1
  have hne : listing ≠ [] := List.ne_nil_of_length_pos (Nat.zero_lt_of_lt hlt)
  rw [DirectoryIterator.increment, hs.state, if_neg hne]
  dsimp only
  have htail : listing.drop (s.position + 2) = (listing.drop (s.position + 1)).tail :=
    List.tail_drop.symm
  rw [htail, ← List.head?_drop]
  cases listing.drop (s.position + 1) with
  | nil => exact ⟨rfl, rfl⟩
  | cons e rest => exact ⟨rfl, rfl⟩

/-- After an increment the iterator is at the next entry, whatever it was at before. -/
theorem Opened.at_advance (hs : Opened listing s) (hparent : s.it.parent = true) :
    At listing s.advance := by
  rw [At, Loop.advance, (hs.increment hparent).1]

theorem Opened.advance (hs : Opened listing s) (hparent : s.it.parent = true) :
    Opened listing s.advance := by
  have hat := hs.at_advance hparent
  obtain ⟨-, hdir⟩ := hs.increment hparent
  have hlt : s.position < listing.length := by
    rw [hs.parent] at hparent
    exact (List.getElem?_eq_some_iff.1 (Option.isSome_iff_exists.1 hparent).choose_spec).1
  have hne : listing ≠ [] := List.ne_nil_of_length_pos (Nat.zero_lt_of_lt hlt)
  refine ⟨?_, congrArg Iterator.parent hat, hlt, ?_, ?_⟩
  · rw [Loop.advance, hdir, if_neg hne]
  · rw [Loop.advance, hdir]
    exact hs.opened
  · rw [Loop.advance, hdir]
    exact hs.closed

theorem Opened.step (hs : Opened listing s) (h : step s a = some s') : Opened listing s' := by
  cases a with
  | dereference =>
      obtain ⟨-, heq⟩ := Option.ite_none_right_eq_some.1 h
      obtain rfl := Option.some.inj heq
      exact hs
  | move =>
      obtain rfl := Option.some.inj h
      exact ⟨hs.state, hs.parent, hs.le, hs.opened, hs.closed⟩
  | preIncrement | postIncrement elided =>
      obtain ⟨hparent, heq⟩ := Option.ite_none_right_eq_some.1 h
      obtain rfl := Option.some.inj heq
      exact hs.advance hparent

theorem opened_start (fs : FileSystem) (path : FsPath) :
    Opened (fs.dirEntries path) (start fs path) ∧ At (fs.dirEntries path) (start fs path) := by
  rw [start, FileSystem.openDirIterator]
  cases fs.dirEntries path with
  | nil => exact ⟨⟨rfl, rfl, Nat.le_refl 0, rfl, rfl⟩, rfl⟩
  | cons e rest => exact ⟨⟨rfl, rfl, Nat.zero_le _, rfl, rfl⟩, rfl⟩

/-- At its entry, an iterator that is moved or given back as it should not be loses it. -/
theorem right_iff_kept (hat : At listing s) (hs : Opened listing s) (a : Action) :
    Right listing s a ↔ Kept s a := by
  have hentry : s.it.fsEntry = listing[s.position]? := congrArg Iterator.fsEntry hat
  cases a with
  | dereference => exact iff_of_true hentry trivial
  | preIncrement => exact iff_of_true hs.at_advance trivial
  | move =>
      rw [Right, At, Iterator.move, Kept]
      cases hnext : listing[s.position]? with
      | none =>
          rw [hs.parent, hnext]
          exact iff_of_true rfl rfl
      | some e =>
          rw [hs.parent, hnext]
          exact iff_of_false (fun h => nomatch congrArg Iterator.fsEntry h) Bool.noConfusion
  | postIncrement elided =>
      refine forall_congr' fun hparent => ?_
      rw [and_iff_left (hs.at_advance hparent)]
      cases elided with
      | true => exact iff_of_true hentry rfl
      | false =>
          rw [hs.parent] at hparent
          obtain ⟨e, he⟩ := Option.isSome_iff_exists.1 hparent
          rw [he]
          exact iff_of_false (fun h => nomatch h) Bool.noConfusion

theorem At.step (hat : At listing s) (hs : Opened listing s) (ha : Right listing s a)
    (h : step s a = some s') : At listing s' := by
  cases a with
  | dereference =>
      obtain ⟨-, heq⟩ := Option.ite_none_right_eq_some.1 h
      obtain rfl := Option.some.inj heq
      exact hat
  | move =>
      obtain rfl := Option.some.inj h
      exact ha
  | preIncrement | postIncrement elided =>
      obtain ⟨hparent, heq⟩ := Option.ite_none_right_eq_some.1 h
      obtain rfl := Option.some.inj heq
      exact hs.at_advance hparent

/-- A loop increments an iterator once for every entry at most. -/
theorem count_le : ∀ {as : List Action} {s s' : Loop}, Opened listing s →
    Runs.exec step s as = some s' →
      Opened listing s' ∧ s.position + as.countP Action.increments = s'.position
  | [], s, s', hs, h => by
      obtain rfl := Option.some.inj h
      exact ⟨hs, rfl⟩
  | a :: as, s, s', hs, h => by
      obtain ⟨s₁, hstep, hrest⟩ := Option.bind_eq_some_iff.1 h
      obtain ⟨hs', hcount⟩ := count_le (hs.step hstep) hrest
      refine ⟨hs', ?_⟩
      rw [← hcount, List.countP_cons]
      have hposition : s₁.position = s.position + if a.increments then 1 else 0 := by
        cases a with
        | dereference =>
            obtain ⟨-, heq⟩ := Option.ite_none_right_eq_some.1 hstep
            obtain rfl := Option.some.inj heq
            rfl
        | move =>
            obtain rfl := Option.some.inj hstep
            rfl
        | preIncrement | postIncrement elided =>
            obtain ⟨-, heq⟩ := Option.ite_none_right_eq_some.1 hstep
            obtain rfl := Option.some.inj heq
            rfl
      rw [hposition, Nat.add_assoc, Nat.add_comm (as.countP _)]

/-- **Loops over a directory** begin at its first entry, and everything they get is what is there in
the listing just when no iterator is moved before its end, be it by the loop or out of a
post-increment.  All of them end, and the state of the file system is closed once if there was
one. -/
theorem iteratesListing_iff (fs : FileSystem) (path : FsPath) (as : List Action) :
    At (fs.dirEntries path) (start fs path) ∧
      (Runs.Allowed step (Right (fs.dirEntries path)) (start fs path) as ↔
        Runs.Allowed step Kept (start fs path) as) ∧
      ∀ s ∈ Runs.exec step (start fs path) as,
        as.countP Action.increments ≤ (fs.dirEntries path).length ∧
          s.dir.opened = (if fs.dirEntries path = [] then 0 else 1) ∧
          s.dir.destroy.closed = s.dir.opened := by
  obtain ⟨hopened, hat⟩ := opened_start fs path
  refine ⟨hat, ?_, fun s hs => ?_⟩
  · refine Runs.allowed_congr (P := fun s => At (fs.dirEntries path) s ∧
        Opened (fs.dirEntries path) s) ?_ ?_ as ⟨hat, hopened⟩ (Runs.allowed_free as _)
    · exact fun hs _ hright hstep => ⟨hs.1.step hs.2 hright hstep, hs.2.step hstep⟩
    · exact fun a hs _ => right_iff_kept hs.1 hs.2 a
  · obtain ⟨hend, hcount⟩ := count_le hopened hs
    have hstart : (start fs path).position = 0 := by
      rw [start]
      split <;> rfl
    refine ⟨?_, hend.opened, ?_⟩
    · rw [hstart, Nat.zero_add] at hcount
      exact hcount ▸ hend.le
    · rw [destroy, hend.state, hend.opened, hend.closed]
      split <;> rfl

/-- Every directory has the same file. -/
def everywhere : FileSystem where
  isReadOnly := true
  pathExists _ _ := true
  dirEntries _ := [⟨.ofString ['f'], .file, 0, 0⟩]
  dirEntries_ne _ e he := by
    rw [List.mem_singleton.1 he]
    decide

/-- An iterator that is moved as soon as the loop begins has no entry. -/
theorem not_iterates : ¬ ∀ (fs : FileSystem) (path : FsPath) (as : List Action),
    Runs.Allowed step (Right (fs.dirEntries path)) (start fs path) as := by
  intro h
  obtain ⟨hmoved, -⟩ := h everywhere .root [.move]
  have hentry : none = some (⟨.ofString ['f'], .file, 0, 0⟩ : FsEntry) :=
    congrArg Iterator.fsEntry hmoved
  cases hentry

end DirectoryIterator

end MyEngine.Io
