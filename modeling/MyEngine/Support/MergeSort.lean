import Mathlib.Data.List.Pairwise
import Mathlib.Data.List.Perm.Basic

/-!
# Support — MergeSort

Stable merge sorts, and what they make of a comparison that orders only some pairs.

* `merge`: the head of the right list goes first only if it compares less than the left head.
* `MergeSorted`: the results of merge sorts, wherever they cut their lists.
* `MergeSorted.topological`: a merge sort by a dependency relation puts every entry behind those
  it depends on, when in the list that is sorted the dependencies behind an entry follow it
  without a gap.
-/

namespace MyEngine.MergeSort

variable {α : Type*}

/-- The entries of `right` that compare less than `a`, then `a`, then `rest` with the others. -/
def mergeHead (less : α → α → Bool) (a : α) (rest : List α → List α) : List α → List α
  | []         => a :: rest []
  | b :: right => if less b a then b :: mergeHead less a rest right else a :: rest (b :: right)

/-- The head of `right` goes first when it compares less than the head of `left`. -/
def merge (less : α → α → Bool) : List α → List α → List α
  | [], right        => right
  | a :: left, right => mergeHead less a (merge less left) right

/-- A merge sort of the first list may result in the second. -/
inductive MergeSorted (less : α → α → Bool) : List α → List α → Prop where
  | nil : MergeSorted less [] []
  | single (a : α) : MergeSorted less [a] [a]
  | split {l₁ l₂ l₁' l₂' : List α} (h₁ : MergeSorted less l₁ l₁') (h₂ : MergeSorted less l₂ l₂') :
      MergeSorted less (l₁ ++ l₂) (merge less l₁' l₂')

variable {less : α → α → Bool}

@[simp] theorem merge_nil_left (l : List α) : merge less [] l = l := rfl

@[simp] theorem merge_nil_right (l : List α) : merge less l [] = l := by
  induction l with
  | nil => rfl
  | cons a l ih => rw [merge, mergeHead, ih]

theorem merge_cons (a b : α) (left right : List α) :
    merge less (a :: left) (b :: right) =
      if less b a then b :: merge less (a :: left) right
      else a :: merge less left (b :: right) := rfl

/-- What a merge keeps is shown by following it: a list is used up, or one of the heads goes
first. -/
theorem merge_induct (less : α → α → Bool) {motive : List α → List α → Prop}
    (hleft : ∀ right, motive [] right)
    (hright : ∀ left, motive left [])
    (hb : ∀ a b left right, less b a = true → motive (a :: left) right →
      motive (a :: left) (b :: right))
    (ha : ∀ a b left right, less b a = false → motive left (b :: right) →
      motive (a :: left) (b :: right)) (left right : List α) : motive left right := by
  induction left generalizing right with
  | nil => exact hleft right
  | cons a left ih =>
      induction right with
      | nil => exact hright (a :: left)
      | cons b right ih' =>
          cases h : less b a with
          | true => exact hb a b left right h ih'
          | false => exact ha a b left right h (ih (b :: right))

theorem merge_perm (left right : List α) : (merge less left right).Perm (left ++ right) := by
  induction left, right using merge_induct less with
  | hleft right => rw [merge_nil_left]; rfl
  | hright left => rw [merge_nil_right, List.append_nil]
  | hb a b left right h ih =>
      rw [merge_cons, if_pos h]
      exact (ih.cons b).trans List.perm_middle.symm
  | ha a b left right h ih =>
      rw [merge_cons, h, if_neg Bool.false_ne_true]
      exact ih.cons a

theorem MergeSorted.perm {l l' : List α} (h : MergeSorted less l l') : l'.Perm l := by
  induction h with
  | nil | single => rfl
  | split _ _ ih₁ ih₂ => exact (merge_perm _ _).trans (ih₁.append ih₂)

/-- Only the comparisons of entries of one list with entries of the other matter. -/
theorem merge_congr {less' : α → α → Bool} {left right : List α}
    (h : ∀ a ∈ left, ∀ b ∈ right, less b a = less' b a) :
    merge less left right = merge less' left right := by
  induction left, right using merge_induct less with
  | hleft right => rw [merge_nil_left, merge_nil_left]
  | hright left => rw [merge_nil_right, merge_nil_right]
  | hb a b left right hba ih =>
      have hba' := (h a List.mem_cons_self b List.mem_cons_self).symm.trans hba
      rw [merge_cons, merge_cons, if_pos hba, if_pos hba', ih fun x hx y hy =>
        h x hx y (List.mem_cons_of_mem b hy)]
  | ha a b left right hba ih =>
      have hba' := (h a List.mem_cons_self b List.mem_cons_self).symm.trans hba
      rw [merge_cons, merge_cons, hba, hba', if_neg Bool.false_ne_true, if_neg Bool.false_ne_true,
        ih fun x hx y hy => h x (List.mem_cons_of_mem a hx) y hy]

theorem MergeSorted.congr {less' : α → α → Bool} {l l' : List α} (hs : MergeSorted less l l')
    (h : ∀ a ∈ l, ∀ b ∈ l, less b a = less' b a) : MergeSorted less' l l' := by
  induction hs with
  | nil => exact .nil
  | single a => exact .single a
  | @split l₁ l₂ l₁' l₂' h₁ h₂ ih₁ ih₂ =>
      rw [merge_congr fun a ha b hb => h a (List.mem_append_left _ (h₁.perm.mem_iff.1 ha)) b
        (List.mem_append_right _ (h₂.perm.mem_iff.1 hb))]
      refine .split (ih₁ fun a ha b hb => ?_) (ih₂ fun a ha b hb => ?_)
      · exact h a (List.mem_append_left _ ha) b (List.mem_append_left _ hb)
      · exact h a (List.mem_append_right _ ha) b (List.mem_append_right _ hb)

/-! ### Dependencies -/

section

variable {R : α → α → Prop}

/-- The entries of `l` that `x` depends on come before the others. -/
def Leading (R : α → α → Prop) (x : α) (l : List α) : Prop :=
  l.Pairwise fun w y => R x y → R x w

/-- The dependencies behind an entry follow it without a gap. -/
def Grouped (R : α → α → Prop) : List α → Prop
  | []     => True
  | x :: l => Leading R x l ∧ Grouped R l

theorem Grouped.append {l₁ l₂ : List α} (h : Grouped R (l₁ ++ l₂)) :
    Grouped R l₁ ∧ Grouped R l₂ ∧ ∀ x ∈ l₁, Leading R x l₂ := by
  induction l₁ with
  | nil => exact ⟨trivial, h, nofun⟩
  | cons x l₁ ih =>
      obtain ⟨hx, h⟩ := h
      obtain ⟨h₁, h₂, h⟩ := ih h
      have hx := List.pairwise_append.1 hx
      refine ⟨⟨hx.1, h₁⟩, h₂, fun y hy => ?_⟩
      rcases List.mem_cons.1 hy with rfl | hy
      · exact hx.2.1
      · exact h y hy

theorem grouped_map {β : Type*} {f : β → α} {l : List β} :
    Grouped R (l.map f) ↔ Grouped (fun a b => R (f a) (f b)) l := by
  induction l with
  | nil => rfl
  | cons x l ih => exact and_congr List.pairwise_map ih

variable (hless : ∀ a b, less b a = true ↔ R a b) (htrans : ∀ a b c, R a b → R b c → R a c)

include hless htrans

/-- An entry `x` before both lists depends on none of the right one, or on all of the left one. -/
theorem leading_merge {x : α} {left right : List α} (hl : Leading R x left)
    (hr : Leading R x right) (hx : (∀ z ∈ right, ¬ R x z) ∨ ∀ v ∈ left, R x v) :
    Leading R x (merge less left right) := by
  induction left, right using merge_induct less with
  | hleft right => rwa [merge_nil_left]
  | hright left => rwa [merge_nil_right]
  | hb a b left right h ih =>
      rw [merge_cons, if_pos h]
      have hr' := List.pairwise_cons.1 hr
      refine List.pairwise_cons.2 ⟨fun y hy hxy => ?_, ih hl hr'.2 (hx.imp_left fun hz z hm =>
        hz z (List.mem_cons_of_mem b hm))⟩
      rcases List.mem_append.1 ((merge_perm _ _).mem_iff.1 hy) with hy | hy
      · have hxa : R x a := by
          rcases List.mem_cons.1 hy with rfl | hy
          · exact hxy
          · exact (List.pairwise_cons.1 hl).1 y hy hxy
        exact htrans x a b hxa ((hless a b).1 h)
      · exact hr'.1 y hy hxy
  | ha a b left right h ih =>
      rw [merge_cons, h, if_neg Bool.false_ne_true]
      have hl' := List.pairwise_cons.1 hl
      refine List.pairwise_cons.2 ⟨fun y hy hxy => ?_, ih hl'.2 hr (hx.imp_right fun hv v hm =>
        hv v (List.mem_cons_of_mem a hm))⟩
      rcases List.mem_append.1 ((merge_perm _ _).mem_iff.1 hy) with hy | hy
      · exact hl'.1 y hy hxy
      · rcases hx with hz | hv
        · exact absurd hxy (hz y hy)
        · exact hv a List.mem_cons_self

/-- Two lists in order are merged in order, when for every entry of the left one its dependencies
in the right one come first. -/
theorem merge_topological (hirr : ∀ a, ¬ R a a) {left right : List α}
    (hl : left.Pairwise fun a b => ¬ R a b) (hr : right.Pairwise fun a b => ¬ R a b)
    (hx : ∀ x ∈ left, Leading R x right) :
    (merge less left right).Pairwise fun a b => ¬ R a b := by
  induction left, right using merge_induct less with
  | hleft right => rwa [merge_nil_left]
  | hright left => rwa [merge_nil_right]
  | hb a b left right h ih =>
      rw [merge_cons, if_pos h]
      have hab := (hless a b).1 h
      have hr' := List.pairwise_cons.1 hr
      refine List.pairwise_cons.2 ⟨fun y hy hby => ?_, ih hl hr'.2 fun x hm =>
        (List.pairwise_cons.1 (hx x hm)).2⟩
      rcases List.mem_append.1 ((merge_perm _ _).mem_iff.1 hy) with hy | hy
      · have hay := htrans a b y hab hby
        rcases List.mem_cons.1 hy with rfl | hy
        · exact hirr y hay
        · exact (List.pairwise_cons.1 hl).1 y hy hay
      · exact hr'.1 y hy hby
  | ha a b left right h ih =>
      rw [merge_cons, h, if_neg Bool.false_ne_true]
      have hl' := List.pairwise_cons.1 hl
      refine List.pairwise_cons.2 ⟨fun y hy hay => ?_, ih hl'.2 hr fun x hm =>
        hx x (List.mem_cons_of_mem a hm)⟩
      have hab : ¬ R a b := fun hab => Bool.false_ne_true (h.symm.trans ((hless a b).2 hab))
      rcases List.mem_append.1 ((merge_perm _ _).mem_iff.1 hy) with hy | hy
      · exact hl'.1 y hy hay
      · rcases List.mem_cons.1 hy with rfl | hy
        · exact hab hay
        · exact hab ((List.pairwise_cons.1 (hx a List.mem_cons_self)).1 y hy hay)

/-- What comes first before the sort comes first behind it. -/
theorem MergeSorted.leading {l l' : List α} (h : MergeSorted less l l') {x : α}
    (hx : Leading R x l) : Leading R x l' := by
  induction h with
  | nil | single => exact hx
  | @split l₁ l₂ l₁' l₂' h₁ h₂ ih₁ ih₂ =>
      have hx' := List.pairwise_append.1 hx
      refine leading_merge hless htrans (ih₁ hx'.1) (ih₂ hx'.2.1) ?_
      by_cases hz : ∀ z ∈ l₂', ¬ R x z
      · exact Or.inl hz
      · push Not at hz
        obtain ⟨z, hz, hxz⟩ := hz
        exact Or.inr fun v hv => hx'.2.2 v (h₁.perm.mem_iff.1 hv) z (h₂.perm.mem_iff.1 hz) hxz

/-- What a merge puts before an entry of the left list that depends on all that was before it. -/
theorem merge_before {x : α} {pre post right : List α} (hpre : ∀ z ∈ pre, R x z) :
    ∃ pre' post', merge less (pre ++ x :: post) right = pre' ++ x :: post' ∧
      ∀ z ∈ pre', R x z := by
  induction right generalizing pre with
  | nil => exact ⟨pre, post, merge_nil_right _, hpre⟩
  | cons b right ih =>
      induction pre with
      | nil =>
          rw [List.nil_append, merge_cons]
          cases h : less b x with
          | false => exact ⟨[], _, rfl, nofun⟩
          | true =>
              have hnil : ∀ z ∈ ([] : List α), R x z := nofun
              obtain ⟨pre', post', heq, hpre'⟩ := ih hnil
              refine ⟨b :: pre', post', congrArg (b :: ·) heq, fun z hz => ?_⟩
              rcases List.mem_cons.1 hz with rfl | hz
              · exact (hless x z).1 h
              · exact hpre' z hz
      | cons a pre ihp =>
          rw [List.cons_append, merge_cons]
          have hxa := hpre a List.mem_cons_self
          cases h : less b a with
          | false =>
              obtain ⟨pre', post', heq, hpre'⟩ :=
                ihp fun z hz => hpre z (List.mem_cons_of_mem a hz)
              refine ⟨a :: pre', post', congrArg (a :: ·) heq, fun z hz => ?_⟩
              rcases List.mem_cons.1 hz with rfl | hz
              · exact hxa
              · exact hpre' z hz
          | true =>
              obtain ⟨pre', post', heq, hpre'⟩ := ih hpre
              refine ⟨b :: pre', post', congrArg (b :: ·) heq, fun z hz => ?_⟩
              rcases List.mem_cons.1 hz with rfl | hz
              · exact htrans x a z hxa ((hless a z).1 h)
              · exact hpre' z hz

/-- A merge sort puts only dependencies of the first entry before it. -/
theorem MergeSorted.before {x : α} {l l' : List α} (h : MergeSorted less (x :: l) l') :
    ∃ pre post, l' = pre ++ x :: post ∧ ∀ z ∈ pre, R x z := by
  generalize hl : x :: l = m at h
  induction h generalizing l with
  | nil => cases hl
  | single a =>
      obtain ⟨rfl, rfl⟩ := List.cons.inj hl
      exact ⟨[], [], rfl, nofun⟩
  | @split l₁ l₂ l₁' l₂' h₁ h₂ ih₁ ih₂ =>
      cases l₁ with
      | nil =>
          rw [List.length_eq_zero_iff.1 h₁.perm.length_eq, merge_nil_left]
          exact ih₂ hl
      | cons a l₁ =>
          obtain ⟨rfl, -⟩ := List.cons.inj hl
          obtain ⟨pre, post, rfl, hpre⟩ := ih₁ rfl
          exact merge_before hless htrans hpre

/-- **A merge sort of a grouped list puts every entry behind its dependencies.** -/
theorem MergeSorted.topological (hirr : ∀ a, ¬ R a a) {l l' : List α} (h : MergeSorted less l l')
    (hg : Grouped R l) : l'.Pairwise fun a b => ¬ R a b := by
  induction h with
  | nil => exact .nil
  | single a => exact List.pairwise_singleton _ a
  | @split l₁ l₂ l₁' l₂' h₁ h₂ ih₁ ih₂ =>
      obtain ⟨hg₁, hg₂, hx⟩ := hg.append
      refine merge_topological hless htrans hirr (ih₁ hg₁) (ih₂ hg₂) fun x hm => ?_
      exact h₂.leading hless htrans (hx x (h₁.perm.mem_iff.1 hm))

end

/-! ### A sort -/

/-- `depth` rounds of cutting the list in halves. -/
def sortHalves (less : α → α → Bool) : Nat → List α → List α
  | 0, l         => l
  | depth + 1, l =>
      if 1 < l.length then
        merge less (sortHalves less depth (l.take (l.length / 2)))
          (sortHalves less depth (l.drop (l.length / 2)))
      else l

/-- The merge sort that cuts its list in halves. -/
def mergeSort (less : α → α → Bool) (l : List α) : List α := sortHalves less l.length l

theorem mergeSorted_sortHalves (depth : Nat) {l : List α} (h : l.length ≤ depth) :
    MergeSorted less l (sortHalves less depth l) := by
  induction depth generalizing l with
  | zero =>
      rw [List.length_eq_zero_iff.1 (Nat.le_zero.1 h)]
      exact .nil
  | succ depth ih =>
      rw [sortHalves]
      split
      case isTrue hlen =>
        have hsplit := MergeSorted.split (ih (l := l.take (l.length / 2)) (by
          rw [List.length_take]; omega)) (ih (l := l.drop (l.length / 2)) (by
          rw [List.length_drop]; omega))
        rwa [List.take_append_drop] at hsplit
      case isFalse hlen =>
        match l, hlen with
        | [], _             => exact .nil
        | [a], _            => exact .single a
        | _ :: _ :: _, hlen => exact absurd (by simp) hlen

theorem mergeSorted_mergeSort (l : List α) : MergeSorted less l (mergeSort less l) :=
  mergeSorted_sortHalves l.length (Nat.le_refl _)

end MyEngine.MergeSort
