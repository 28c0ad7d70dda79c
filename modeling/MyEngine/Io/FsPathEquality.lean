import Mathlib.Data.Char
import MyEngine.Io.FsPath
import MyEngine.Utils.SplitSequence

/-!
# Io — FsPathEquality

`fs_path.cpp`, `fs_path.h`: `operator==` compares two paths element by element, with the iterators
of `strings::Split`; `operator<=>` and the hash code take the stored string.

* `compareElements_eq`: the loop of `operator==` compares the lists of elements.
* `operatorEq_iff`: the elements, joined, are the string again, so equal elements are equal
  strings.
* `equality_agrees`: the three notions of identity of a path are one.
-/

namespace MyEngine.Io

open Strings SplitSequence

namespace FsPath

/-- `splitElements`. -/
def elementSequence (p : FsPath) : SplitSequence := ⟨p.path, ['/']⟩

/-- The loop of `operator==`, and what is returned behind it. -/
def compareElements (elements otherElements : SplitSequence) (iter1 iter2 : Iterator) : Bool :=
  if _h : iter1.equals elements.last = false ∧ iter2.equals otherElements.last = false then
    if iter1.value ≠ iter2.value then
      false
    else
      compareElements elements otherElements iter1.advance iter2.advance
  else
    iter1.equals elements.last && iter2.equals elements.last
termination_by iter1.left
decreasing_by
  refine Iterator.left_advance fun hs => ?_
  rw [last, (Iterator.equals_default _).mpr hs] at _h
  cases _h.1

/-- `operator==`. -/
def operatorEq (p other : FsPath) : Bool :=
  if p.isEmpty && other.isEmpty then
    true
  else if p.path = ['/'] || other.path = ['/'] then
    p.path = other.path
  else
    compareElements p.elementSequence other.elementSequence p.elementSequence.first
      other.elementSequence.first

/-- `std::char_traits<char>::compare` over the common length, then the lengths. -/
def compareStrings : List Char → List Char → Ordering
  | [], []         => .eq
  | [], _ :: _     => .lt
  | _ :: _, []     => .gt
  | c :: s, d :: t => if c < d then .lt else if d < c then .gt else compareStrings s t

/-- `operator<=>`. -/
def spaceship (path1 path2 : FsPath) : Ordering := compareStrings path1.path path2.path

/-- `getHashCode`, of the standard library's hash of a string. -/
def getHashCode (hash : List Char → UInt64) (p : FsPath) : UInt64 :=
  if p.path = [] then 0 else hash p.path

theorem compareElements_eq {elements otherElements : SplitSequence} {iter1 iter2 : Iterator}
    {es fs : List Name} (h₁ : iter1.Reads es) (h₂ : iter2.Reads fs) :
    compareElements elements otherElements iter1 iter2 = decide (es = fs) := by
  have hend : ∀ (seq : SplitSequence) (iter : Iterator),
      iter.equals seq.last = decide (iter.str = []) := fun seq iter => by
    rw [Bool.eq_iff_iff, decide_eq_true_eq]
    exact iter.equals_default
  induction h₁ generalizing iter2 fs with
  | @done iter1 hs =>
      rw [compareElements, dif_neg (by simp [hend, hs])]
      cases h₂ with
      | done hs₂ => simp [hend, hs, hs₂]
      | more hs₂ => simp [hend, hs₂]
  | @more iter1 value rest hs hv _ ih =>
      cases h₂ with
      | done hs₂ =>
          rw [compareElements, dif_neg (by simp [hend, hs₂])]
          simp [hend, hs]
      | @more _ value₂ rest₂ hs₂ hv₂ hr₂ =>
          rw [compareElements, dif_pos (by simp [hend, hs, hs₂]), hv, hv₂, ih hr₂]
          by_cases he : value = value₂ <;> simp [he]

theorem elements_elementSequence (p : FsPath) :
    p.elementSequence.elements = p.splitElements := by
  rw [SplitSequence.elements, splitElements, List.splitOn_eq_splitOnP]
  simp only [elementSequence, List.mem_singleton, Bool.beq_eq_decide_eq]

theorem operatorEq_iff {p other : FsPath} : p.operatorEq other = true ↔ p = other := by
  rw [← equals_iff, operatorEq, equals,
    compareElements_eq (reads_first _) (reads_first _), elements_elementSequence,
    elements_elementSequence]

theorem compareStrings_eq {s t : List Char} : compareStrings s t = .eq ↔ s = t := by
  induction s generalizing t with
  | nil => cases t <;> simp [compareStrings]
  | cons c s ih =>
      cases t with
      | nil => simp [compareStrings]
      | cons d t =>
          rw [compareStrings]
          rcases lt_trichotomy c d with h | rfl | h
          · simp [h, h.ne]
          · simp [ih]
          · simp [h, h.not_gt, h.ne']

/-- **Identity of paths.**  Two paths are equal when their elements are, when they compare as
equal, and then they have one hash code. -/
theorem equality_agrees (hash : List Char → UInt64) :
    (∀ a b : FsPath, a.operatorEq b = true ↔ spaceship a b = .eq) ∧
    Equivalence (fun a b : FsPath => a.operatorEq b = true) ∧
    ∀ a b : FsPath, a.operatorEq b = true → a.getHashCode hash = b.getHashCode hash := by
  refine ⟨fun a b => ?_, ⟨fun a => ?_, fun {a b} h => ?_, fun {a b c} h h' => ?_⟩, ?_⟩
  · rw [operatorEq_iff, spaceship, compareStrings_eq]
    exact ⟨congrArg path, ext⟩
  · exact operatorEq_iff.mpr rfl
  · exact operatorEq_iff.mpr (operatorEq_iff.mp h).symm
  · exact operatorEq_iff.mpr ((operatorEq_iff.mp h).trans (operatorEq_iff.mp h'))
  · intro a b h
    rw [operatorEq_iff.mp h]

end FsPath

end MyEngine.Io
