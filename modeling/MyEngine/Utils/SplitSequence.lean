import Mathlib.Tactic.TypeStar

/-!
# Utils — SplitSequence

`string_utils.cpp`: the elements of a string between separators, one after the other.  An
iterator holds the string, the offset its next element begins at, and its current element; the
iterator at the end has let go of the string.  `npos` and a view without data are `none`.

* `Iterator.Reads`: the elements an iterator has before it, up to the end.
* `reads_first`: from `begin()` these are what the separators leave of the string, and there is
  none only when the string is empty.
* `iterate`: the loop from an iterator to `end()`; `iterate_first`: what it meets from `begin()`.
-/

namespace MyEngine.Strings

/-- `std::string_view::find_first_of`, from an offset on. -/
def findFirstOf (input sep : List Char) (offset : Nat) : Option Nat :=
  ((input.drop offset).findIdx? fun c => decide (c ∈ sep)).map (offset + ·)

/-- `StrSplitNext`: the offset of the next element, and the element at the offset. -/
def strSplitNext (input sep : List Char) (offset : Option Nat) :
    Option Nat × Option (List Char) :=
  match offset with
  | none => (none, none)
  | some offset =>
      if input = [] then
        (none, none)
      else
        match findFirstOf input sep offset with
        | none     => (none, some (input.drop offset))
        | some pos => (some (pos + 1), some ((input.drop offset).take (pos - offset)))

/-- `SplitSequence`. -/
structure SplitSequence where
  str : List Char
  separators : List Char

namespace SplitSequence

/-- `SplitSequence::iterator`. -/
structure Iterator where
  str : List Char
  separators : List Char
  value : Option (List Char)
  nextOffset : Option Nat
  deriving DecidableEq

namespace Iterator

/-- `iterator()`. -/
def default : Iterator := ⟨[], [], none, none⟩

def advance (iter : Iterator) : Iterator :=
  match strSplitNext iter.str iter.separators iter.nextOffset with
  | (nextOffset, none)       => ⟨[], [], none, nextOffset⟩
  | (nextOffset, some value) => ⟨iter.str, iter.separators, some value, nextOffset⟩

/-- `iterator(str, separators, offset)`. -/
def new (str separators : List Char) (offset : Nat) : Iterator :=
  advance ⟨str, separators, none, some offset⟩

/-- `operator==`: the iterators that have no string are at the end. -/
def equals (iter other : Iterator) : Bool :=
  if iter.str = [] ∨ other.str = [] then
    iter.str = [] ∧ other.str = []
  else
    iter.nextOffset = other.nextOffset

end Iterator

/-- `begin()`. -/
def first (seq : SplitSequence) : Iterator := .new seq.str seq.separators 0

/-- `end()`. -/
def last (_ : SplitSequence) : Iterator := .default

namespace Iterator

/-- How often the iterator can still be advanced before it lets go of the string. -/
def left (iter : Iterator) : Nat :=
  if iter.str = [] then 0
  else
    match iter.nextOffset with
    | none        => 1
    | some offset => 2 + (iter.str.length - offset)

theorem equals_default (iter : Iterator) : iter.equals default = true ↔ iter.str = [] := by
  simp [equals, default]

theorem findFirstOf_lt {input sep : List Char} {offset pos : Nat}
    (h : findFirstOf input sep offset = some pos) : offset ≤ pos ∧ pos < input.length := by
  obtain ⟨k, hk, rfl⟩ := Option.map_eq_some_iff.mp h
  obtain ⟨hlt, -⟩ := List.findIdx?_eq_some_iff_getElem.mp hk
  rw [List.length_drop] at hlt
  exact ⟨Nat.le_add_right _ _, by omega⟩

/-- Each `operator++` brings the iterator closer to the end. -/
theorem left_advance {iter : Iterator} (h : iter.str ≠ []) : iter.advance.left < iter.left := by
  obtain ⟨str, separators, value, nextOffset⟩ := iter
  change str ≠ [] at h
  cases nextOffset with
  | none => simp [advance, strSplitNext, left, h]
  | some offset =>
      cases hf : findFirstOf str separators offset with
      | none =>
          simp only [advance, strSplitNext, hf, left, if_neg h]
          omega
      | some pos =>
          obtain ⟨hle, hlt⟩ := findFirstOf_lt hf
          simp only [advance, strSplitNext, hf, left, if_neg h]
          omega

/-- The elements from the iterator to the end of its sequence. -/
inductive Reads : Iterator → List (List Char) → Prop where
  | done {iter : Iterator} (h : iter.str = []) : Reads iter []
  | more {iter : Iterator} {value : List Char} {rest : List (List Char)} (h : iter.str ≠ [])
      (hv : iter.value = some value) (hr : Reads iter.advance rest) : Reads iter (value :: rest)

end Iterator

/-- The elements of the sequence: none for the empty string, else one more than there are
separators. -/
def elements (seq : SplitSequence) : List (List Char) :=
  if seq.str = [] then [] else seq.str.splitOnP fun c => decide (c ∈ seq.separators)

/-- The first separator, and what is on its two sides. -/
theorem findFirstOf_some {input sep : List Char} {offset pos : Nat}
    (h : findFirstOf input sep offset = some pos) :
    (input.drop offset).splitOnP (fun c => decide (c ∈ sep)) =
      (input.drop offset).take (pos - offset) ::
        (input.drop (pos + 1)).splitOnP fun c => decide (c ∈ sep) := by
  obtain ⟨k, hk, rfl⟩ := Option.map_eq_some_iff.mp h
  obtain ⟨hlt, hsep, hbefore⟩ := List.findIdx?_eq_some_iff_getElem.mp hk
  have hcut : input.drop offset = (input.drop offset).take k ++
      (input.drop offset)[k] :: input.drop (offset + k + 1) := by
    rw [Nat.add_assoc, ← List.drop_drop, List.getElem_cons_drop, List.take_append_drop]
  have hnone : ∀ c ∈ (input.drop offset).take k, decide (c ∈ sep) = false := by
    intro c hc
    obtain ⟨i, hi, rfl⟩ := List.mem_iff_getElem.mp hc
    rw [List.length_take] at hi
    rw [List.getElem_take]
    exact Bool.eq_false_iff.mpr (hbefore i (by omega))
  rw [Nat.add_sub_cancel_left]
  exact (congrArg _ hcut).trans (List.splitOnP_append_cons_of_forall_mem hnone _ hsep _)

theorem findFirstOf_none {input sep : List Char} {offset : Nat}
    (h : findFirstOf input sep offset = none) :
    (input.drop offset).splitOnP (fun c => decide (c ∈ sep)) = [input.drop offset] := by
  rw [findFirstOf, Option.map_eq_none_iff, List.findIdx?_eq_none_iff] at h
  exact List.splitOnP_eq_singleton h

/-- From any offset the iterator reads what the separators leave of the rest of the string. -/
theorem reads_new {str separators : List Char} (hne : str ≠ []) (offset : Nat) :
    (Iterator.new str separators offset).Reads
      ((str.drop offset).splitOnP fun c => decide (c ∈ separators)) := by
  induction hn : str.length - offset using Nat.strongRecOn generalizing offset with
  | ind n ih =>
      subst hn
      cases hf : findFirstOf str separators offset with
      | none =>
          rw [findFirstOf_none hf, Iterator.new, Iterator.advance]
          simp only [strSplitNext, hf, if_neg hne]
          refine .more hne rfl (.done ?_)
          rfl
      | some pos =>
          obtain ⟨hle, hlt⟩ := Iterator.findFirstOf_lt hf
          rw [findFirstOf_some hf, Iterator.new, Iterator.advance]
          simp only [strSplitNext, hf, if_neg hne]
          exact .more hne rfl (ih _ (by omega) (pos + 1) rfl)

theorem reads_first (seq : SplitSequence) : seq.first.Reads seq.elements := by
  rw [elements]
  split
  · next h => exact .done (by simp [first, Iterator.new, Iterator.advance, strSplitNext, h])
  · next h => exact reads_new h 0

/-! ### From `begin()` to `end()` -/

/-- `for (std::string_view element : sequence)`, from an iterator to `end()`: the elements it
meets; `none` is an iterator that is dereferenced without an element. -/
def Iterator.iterate (iter : Iterator) : Option (List (List Char)) :=
  if h : iter.equals .default = true then
    some []
  else
    match iter.value with
    | none       => none
    | some value => (iterate iter.advance).map (value :: ·)
termination_by iter.left
decreasing_by exact left_advance fun hstr => h ((equals_default iter).mpr hstr)

/-- The loop meets what the iterator has before it. -/
theorem Iterator.Reads.iterate_eq {iter : Iterator} {elements : List (List Char)}
    (h : iter.Reads elements) : iter.iterate = some elements := by
  induction h with
  | done hstr => rw [iterate, dif_pos ((equals_default _).mpr hstr)]
  | more hstr hvalue _ ih =>
      have hmore := mt (equals_default _).mp hstr
      rw [iterate, dif_neg hmore, hvalue]
      simp only [ih, Option.map_some]

/-- The separators of the sequence, in their order in the string. -/
def found (seq : SplitSequence) : List Char :=
  seq.str.filter fun c => decide (c ∈ seq.separators)

/-- The pieces one after the other, with a separator after each but the last. -/
def join (pieces : List (List Char)) (separators : List Char) : List Char :=
  (List.zipWith (· ++ ·) pieces (separators.map (fun c => [c]) ++ [[]])).flatten

/-- A separator ends the piece before it; any other character joins the piece after it. -/
theorem length_splitOnP (p : Char → Bool) (str : List Char) :
    (str.splitOnP p).length = (str.filter p).length + 1 := by
  induction str with
  | nil => rfl
  | cons c str ih =>
      rw [List.splitOnP_cons_eq_if_modifyHead, List.filter_cons]
      cases p c with
      | true => simp only [if_true, List.length_cons, ih]
      | false => simp only [Bool.false_eq_true, if_false, List.length_modifyHead, ih]

theorem not_mem_splitOnP (p : Char → Bool) (str : List Char) :
    ∀ piece ∈ str.splitOnP p, ∀ c ∈ piece, p c = false := by
  induction str with
  | nil => simp
  | cons c str ih =>
      rw [List.splitOnP_cons_eq_if_modifyHead]
      cases hc : p c with
      | true =>
          intro piece hpiece
          rcases List.mem_cons.mp hpiece with rfl | hpiece
          · simp
          · exact ih piece hpiece
      | false =>
          obtain ⟨head, tail, hsplit⟩ := List.exists_cons_of_ne_nil (List.splitOnP_ne_nil p str)
          simp only [hsplit, List.forall_mem_cons] at ih
          simp only [Bool.false_eq_true, if_false, hsplit, List.modifyHead_cons,
            List.forall_mem_cons]
          exact ⟨⟨hc, ih.1⟩, ih.2⟩

/-- The loop over the whole sequence ends.  It meets no piece of the empty string; of any other
it meets one piece more than there are separators, none with a separator in it, and the
separators between them give the string back. -/
theorem iterate_first (seq : SplitSequence) :
    ∃ pieces, seq.first.iterate = some pieces ∧
      if seq.str = [] then
        pieces = []
      else
        pieces.length = seq.found.length + 1 ∧
          (∀ piece ∈ pieces, ∀ c ∈ piece, c ∉ seq.separators) ∧
          join pieces seq.found = seq.str := by
  refine ⟨seq.elements, (reads_first seq).iterate_eq, ?_⟩
  rw [elements]
  split
  · rfl
  · refine ⟨length_splitOnP _ _, ?_, List.splitOnP_spec _⟩
    intro piece hpiece c hc
    exact of_decide_eq_false (not_mem_splitOnP _ _ piece hpiece c hc)

end SplitSequence

end MyEngine.Strings
