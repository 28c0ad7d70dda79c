import MyEngine.Containers.IntrusiveListLinks
import Mathlib.Data.List.TakeWhile

/-!
# Containers — IntrusiveListRuns

The loops of the lists end and do what they are to do, every operation keeps `Represents`, and so
does every sequence of them.

* `Represents.step`: one operation on the heap is the one on the lists.
* `run_represents`: from no nodes at all.
-/

namespace MyEngine.Containers

open Links

variable {κ ν : Type} [DecidableEq ν] {h : Heap κ ν} {r : Lists κ ν} {l : κ}

/-! ### Positions of a list -/

namespace Lists

variable {xs as bs : List ν} {p : ν}

theorem before_append_from (xs : List ν) (pos : Option ν) : before xs pos ++ «from» xs pos = xs :=
  List.takeWhile_append_dropWhile

theorem before_none (xs : List ν) : before xs none = xs := List.takeWhile_eq_self_iff.2 (by simp)

theorem from_none (xs : List ν) : «from» xs none = [] := List.dropWhile_eq_nil_iff.2 (by simp)

theorem from_eq_cons (h : p ∈ xs) : ∃ rest, «from» xs (some p) = p :: rest := by
  induction xs with
  | nil => cases h
  | cons y xs ih =>
      rw [Lists.from, List.dropWhile_cons]
      by_cases hy : p = y
      · exact ⟨xs, by simp [hy]⟩
      · rw [if_pos (by simpa using hy)]
        exact ih ((List.mem_cons.1 h).resolve_left hy)

theorem erase_eq (h : (as ++ p :: bs).Nodup) : (as ++ p :: bs).erase p = as ++ bs := by
  have hp : p ∉ as := fun hp => (nodup_remove h).2 (List.mem_append_left _ hp)
  rw [List.erase_append_right _ hp, List.erase_cons_head]

theorem filter_eq (h : xs.Nodup) : xs.filter (fun y => some p ≠ some y) = xs.erase p := by
  rw [h.erase_eq_filter]
  refine List.filter_congr fun y _ => ?_
  by_cases hy : y = p
  · simp [hy]
  · simp [hy, Ne.symm hy]

end Lists

/-! ### The loops -/

/-- The loop of `clear` comes to every node behind the tail. -/
theorem clearFrom_spec {xs : List ν} {pos : Option ν} {fuel : ℕ}
    (hseg : Seg (fun x => (h.node x).prev) pos xs none) (hnodup : xs.Nodup)
    (hfuel : xs.length ≤ fuel) : ∃ h', h.clearFrom fuel pos = some h' ∧
      (∀ y, h'.node y = if y ∈ xs then {} else h.node y) ∧ h'.list = h.list := by
  induction xs generalizing h pos fuel with
  | nil =>
      obtain rfl : pos = none := hseg
      refine ⟨h, ?_, fun y => rfl, rfl⟩
      cases fuel <;> rfl
  | cons x xs ih =>
      obtain ⟨rfl, hseg⟩ := hseg
      obtain ⟨hx, hnodup⟩ := List.nodup_cons.1 hnodup
      cases fuel with
      | zero => cases hfuel
      | succ fuel =>
          have hseg' : Seg (fun y => ((h.clearListElementState x).node y).prev)
              (h.node x).prev xs none := by
            refine hseg.congr fun y hy => ?_
            have hyx : y ≠ x := fun hyx => hx (hyx ▸ hy)
            rw [Heap.clear_node, if_neg hyx]
          obtain ⟨h', hh', hnode, hlist⟩ := ih hseg' hnodup (Nat.le_of_succ_le_succ hfuel)
          refine ⟨h', hh', fun y => ?_, hlist⟩
          rw [hnode y, Heap.clear_node]
          by_cases hyx : y = x <;> by_cases hyxs : y ∈ xs <;> simp [hyx, hyxs]

/-- The loop of `moveFrom` comes to every node behind the head. -/
theorem adopt_spec (this : κ) {xs : List ν} {pos : Option ν} {fuel : ℕ}
    (hseg : Seg (fun x => (h.node x).next) pos xs none) (hfuel : xs.length ≤ fuel) :
    ∃ h', h.adopt this fuel pos = some h' ∧
      (∀ y, h'.node y = if y ∈ xs then { h.node y with list := some this } else h.node y) ∧
      h'.list = h.list := by
  induction xs generalizing h pos fuel with
  | nil =>
      obtain rfl : pos = none := hseg
      refine ⟨h, ?_, fun y => rfl, rfl⟩
      cases fuel <;> rfl
  | cons x xs ih =>
      obtain ⟨rfl, hseg⟩ := hseg
      cases fuel with
      | zero => cases hfuel
      | succ fuel =>
          let g : Heap κ ν := h.modify x fun n => { n with list := some this }
          have hg : ∀ y, g.node y =
              if y = x then { h.node x with list := some this } else h.node y :=
            fun y => Heap.modify_node
          have hseg' : Seg (fun y => (g.node y).next) (h.node x).next xs none := by
            refine hseg.congr fun y _ => ?_
            rw [hg y]
            split
            · next hyx => rw [hyx]
            · rfl
          obtain ⟨h', hh', hnode, hlist⟩ := ih hseg' (Nat.le_of_succ_le_succ hfuel)
          refine ⟨h', hh', fun y => ?_, hlist⟩
          rw [hnode y, hg y]
          by_cases hyx : y = x
          · subst hyx
            simp
          · by_cases hyxs : y ∈ xs <;> simp [hyx, hyxs]

/-- `last` is found behind the node. -/
theorem Represents.staysAfter (hr : Represents h r) {as rest : List ν} {p q : ν} {fuel : ℕ}
    (hl : r l = as ++ p :: rest) (hq : q ∈ rest) (hfuel : rest.length ≤ fuel) :
    h.staysAfter q fuel (some p) = some true := by
  induction rest generalizing as p fuel with
  | nil => cases hq
  | cons y rest ih =>
      cases fuel with
      | zero => cases hfuel
      | succ fuel =>
          rw [Heap.staysAfter, hr.next_eq hl, List.head?_cons]
          dsimp only
          by_cases hy : y = q
          · rw [if_pos hy]
          · rw [if_neg hy]
            have hl' : r l = (as ++ [p]) ++ y :: rest := by
              rw [hl, List.append_assoc, List.singleton_append]
            exact ih hl' ((List.mem_cons.1 hq).resolve_left (Ne.symm hy))
              (Nat.le_of_succ_le_succ hfuel)

variable [DecidableEq κ]

/-- The loop of `erase(first, last)` takes out the nodes from the first on, up to `last`. -/
theorem Represents.eraseUntil (hr : Represents h r) {as mid cs : List ν} {p : ν} {fuel : ℕ}
    (hl : r l = as ++ p :: (mid ++ cs)) (hfuel : mid.length < fuel) :
    ∃ h', Heap.eraseUntil l cs.head? fuel h (some p) = some h' ∧
      Represents h' (Function.update r l (as ++ cs)) := by
  induction mid generalizing h r p fuel with
  | nil =>
      obtain ⟨h', hh', hr'⟩ := hr.erase hl
      cases fuel with
      | zero => cases hfuel
      | succ fuel =>
          refine ⟨h', ?_, hr'⟩
          rw [Heap.eraseUntil, hh']
          exact if_pos rfl
  | cons m mid ih =>
      obtain ⟨h₁, hh₁, hr₁⟩ := hr.erase hl
      cases fuel with
      | zero => cases hfuel
      | succ fuel =>
          have hne : some m ≠ cs.head? := by
            intro hm
            have hnodup : (as ++ p :: (m :: mid ++ cs)).Nodup := hl ▸ hr.nodup l
            have hcons := (List.nodup_cons.1 (List.nodup_append.1 hnodup).2.1).2
            refine (List.nodup_cons.1 hcons).1 (List.mem_append_right _ ?_)
            exact List.mem_of_head? hm.symm
          have hl₁ : Function.update r l (as ++ (m :: mid ++ cs)) l = as ++ m :: (mid ++ cs) := by
            rw [Function.update_self, List.cons_append]
          obtain ⟨h', hh', hr'⟩ := ih hr₁ hl₁ (Nat.lt_of_succ_lt_succ hfuel)
          rw [Function.update_idem] at hr'
          refine ⟨h', ?_, hr'⟩
          rw [Heap.eraseUntil, hh₁]
          dsimp only [List.cons_append, List.head?_cons]
          rw [if_neg hne]
          exact hh'

/-! ### The operations -/

namespace Represents

variable {x p : ν} {fuel : ℕ}

theorem insert_op (hr : Represents h r) {pos : Option ν} (hfree : r.IsFree x)
    (hpos : ∀ p, pos = some p → p ∈ r l) : ∃ h', h.insert l pos x = some (some x, h') ∧
      Represents h' (r.apply (.insert l pos x)) := by
  rw [Lists.apply]
  cases pos with
  | none =>
      obtain ⟨h', hh', htail, hr'⟩ := hr.pushBack (l := l) hfree
      refine ⟨h', ?_, ?_⟩
      · rw [Heap.insert, hh', Option.map_some, htail]
      · rwa [Lists.before_none, Lists.from_none]
  | some p =>
      obtain ⟨rest, hrest⟩ := Lists.from_eq_cons (hpos p rfl)
      rw [hrest]
      refine hr.insert ?_ hfree
      rw [← hrest, Lists.before_append_from]

theorem pushFront_op (hr : Represents h r) (hfree : r.IsFree x) :
    ∃ h', h.pushFront l x = some h' ∧ Represents h' (r.apply (.pushFront l x)) := by
  rw [Heap.pushFront, hr.head_eq, Lists.apply]
  cases hl : r l with
  | nil =>
      obtain ⟨h', hh', -, hr'⟩ := hr.pushBack (l := l) hfree
      refine ⟨h', ?_, ?_⟩
      · rw [List.head?_nil, Heap.insert, hh']
        rfl
      · rwa [hl] at hr'
  | cons p bs =>
      have hl' : r l = [] ++ p :: bs := hl
      obtain ⟨h', hh', hr'⟩ := hr.insert hl' hfree
      refine ⟨h', ?_, hr'⟩
      rw [List.head?_cons, hh']
      rfl

theorem erase_op (hr : Represents h r) (hp : p ∈ r l) : ∃ next h',
    h.erase l (some p) = some (next, h') ∧
      Represents h' (Function.update r l ((r l).erase p)) := by
  obtain ⟨as, bs, hl⟩ := List.append_of_mem hp
  obtain ⟨h', hh', hr'⟩ := hr.erase hl
  refine ⟨_, h', hh', ?_⟩
  rwa [hl, Lists.erase_eq (hl ▸ hr.nodup l)]

/-- The end of the range stays, and what comes behind it. -/
theorem eraseRange_op (hr : Represents h r) {first last : Option ν}
    (ha : r.Accepts (.eraseRange l first last)) (hfuel : (r l).length ≤ fuel) :
    ∃ h', h.eraseRange fuel l first last = some (last, h') ∧
      Represents h' (r.apply (.eraseRange l first last)) := by
  obtain ⟨p, rest, rfl, hfrom, hlast⟩ := ha
  have hl : r l = Lists.before (r l) (some p) ++ p :: rest := by
    rw [← hfrom, Lists.before_append_from]
  have hlength : rest.length < fuel := by
    rw [hl, List.length_append, List.length_cons] at hfuel
    omega
  have hp : (h.node p).list = some l := hr.listed l p (by rw [hl]; simp)
  rw [Heap.eraseRange.eq_def, Lists.apply, hfrom]
  dsimp only
  rw [if_pos hp]
  cases last with
  | none =>
      have hl' : r l = Lists.before (r l) (some p) ++ p :: (rest ++ []) := by
        rw [List.append_nil]
        exact hl
      obtain ⟨h', hh', hr'⟩ := hr.eraseUntil hl' hlength
      refine ⟨h', ?_, ?_⟩
      · dsimp only [List.head?_nil] at hh'
        dsimp only
        rw [hh']
        rfl
      · rwa [Lists.from_none]
  | some q =>
      have hq := hlast q rfl
      have hpq : p ≠ q := by
        rintro rfl
        exact (List.nodup_cons.1 (List.nodup_append.1 (hl ▸ hr.nodup l)).2.1).1 hq
      obtain ⟨cs, hcs⟩ := Lists.from_eq_cons hq
      have hrest : Lists.before rest (some q) ++ q :: cs = rest := by
        rw [← hcs, Lists.before_append_from]
      have hfrom' : Lists.from (p :: rest) (some q) = q :: cs := by
        rw [← hcs, Lists.from, Lists.from, List.dropWhile_cons, if_pos (by simpa using Ne.symm hpq)]
      have hmem : q ∈ r l := by
        rw [hl]
        exact List.mem_append_right _ (List.mem_cons_of_mem _ hq)
      have hl' : r l = Lists.before (r l) (some p) ++
          p :: (Lists.before rest (some q) ++ q :: cs) := by
        rw [hrest]
        exact hl
      have hbefore : (Lists.before rest (some q)).length < fuel :=
        Nat.lt_of_le_of_lt (List.takeWhile_sublist _).length_le hlength
      obtain ⟨h', hh', hr'⟩ := hr.eraseUntil hl' hbefore
      refine ⟨h', ?_, by rwa [hfrom']⟩
      dsimp only
      rw [if_pos ⟨hr.listed l q hmem, hr.staysAfter hl hq (Nat.le_of_lt hlength)⟩]
      dsimp only [List.head?_cons] at hh'
      rw [hh']
      rfl

theorem clear_op (hr : Represents h r) (hfuel : (r l).length ≤ fuel) :
    ∃ h', h.clear fuel l = some h' ∧ h'.list l = {} ∧
      Represents h' (Function.update r l []) := by
  have hfuel' : (r l).reverse.length ≤ fuel := by rwa [List.length_reverse]
  obtain ⟨h₁, hh₁, hnode, hlist⟩ :=
    clearFrom_spec (hr.backward l) (List.nodup_reverse.2 (hr.nodup l)) hfuel'
  refine ⟨h₁.setList l {}, by rw [Heap.clear, hh₁]; rfl, Heap.setList_self, ?_⟩
  refine hr.update (fun k hk => ?_) (fun y hy _ => ?_) (by simp) ?_ ?_ List.nodup_nil (by simp)
    fun y hy _ => ?_
  · rw [Heap.setList_of_ne hk, hlist]
  · rw [Heap.setList_node, hnode y, if_neg fun hy' => hy (List.mem_reverse.1 hy')]
  · rw [Heap.setList_self]
    rfl
  · rw [Heap.setList_self]
    rfl
  · rw [Heap.setList_node, hnode y, if_pos (List.mem_reverse.2 hy)]

/-- The nodes of `list` become the ones of `this`, which has none. -/
theorem adopt (hr : Represents h r) {this list : κ} (hne : list ≠ this) (hthis : r this = [])
    {h' : Heap κ ν}
    (hnode : ∀ y, h'.node y = if y ∈ r list then { h.node y with list := some this } else h.node y)
    (hlist : ∀ k, h'.list k =
      if k = list then {} else if k = this then h.list list else h.list k) :
    Represents h' (Function.update (Function.update r this (r list)) list []) := by
  have hmoved : ∀ k, Function.update (Function.update r this (r list)) list [] k =
      if k = list then [] else if k = this then r list else r k := by
    intro k
    rw [Function.update_apply, Function.update_apply]
  have hother : ∀ k, k ≠ list → ∀ y ∈ r k, h'.node y = h.node y := by
    intro k hk y hy
    rw [hnode y, if_neg fun hlist => hk (hr.unique hy hlist)]
  have hnext : ∀ y, (h'.node y).next = (h.node y).next := by
    intro y
    rw [hnode y]
    split <;> rfl
  have hprev : ∀ y, (h'.node y).prev = (h.node y).prev := by
    intro y
    rw [hnode y]
    split <;> rfl
  constructor
  · intro k
    rw [hmoved k, hlist k]
    by_cases hk : k = list
    · rw [if_pos hk, if_pos hk]
      rfl
    · by_cases hk' : k = this
      · rw [if_neg hk, if_neg hk, if_pos hk', if_pos hk']
        exact (hr.forward list).congr fun y _ => hnext y
      · rw [if_neg hk, if_neg hk, if_neg hk', if_neg hk']
        exact (hr.forward k).congr fun y _ => hnext y
  · intro k
    rw [hmoved k, hlist k]
    by_cases hk : k = list
    · rw [if_pos hk, if_pos hk]
      rfl
    · by_cases hk' : k = this
      · rw [if_neg hk, if_neg hk, if_pos hk', if_pos hk']
        exact (hr.backward list).congr fun y _ => hprev y
      · rw [if_neg hk, if_neg hk, if_neg hk', if_neg hk']
        exact (hr.backward k).congr fun y _ => hprev y
  · intro k
    rw [hmoved k]
    split
    · exact List.nodup_nil
    · split
      · exact hr.nodup list
      · exact hr.nodup k
  · intro k y hy
    rw [hmoved k] at hy
    by_cases hk : k = list
    · rw [if_pos hk] at hy
      cases hy
    · by_cases hk' : k = this
      · rw [if_neg hk, if_pos hk'] at hy
        rw [hnode y, if_pos hy, hk']
      · rw [if_neg hk, if_neg hk'] at hy
        rw [hother k hk y hy]
        exact hr.listed k y hy
  · intro y hfree
    have hlist' : y ∉ r list := by
      have hnot := hfree this
      rwa [hmoved this, if_neg hne.symm, if_pos rfl] at hnot
    rw [hnode y, if_neg hlist']
    refine hr.free y fun k hk => ?_
    by_cases hkl : k = list
    · exact hlist' (hkl ▸ hk)
    · by_cases hkt : k = this
      · rw [hkt, hthis] at hk
        cases hk
      · have hnot := hfree k
        rw [hmoved k, if_neg hkl, if_neg hkt] at hnot
        exact hnot hk

theorem moveFrom_op (hr : Represents h r) {this list : κ} (hfuel : ∀ l, (r l).length ≤ fuel) :
    ∃ h', h.moveFrom fuel this list = some h' ∧
      Represents h' (r.apply (.moveAssign this list)) := by
  rw [Heap.moveFrom, Lists.apply]
  by_cases hne : list = this
  · rw [if_pos hne, if_pos hne]
    exact ⟨h, rfl, hr⟩
  rw [if_neg hne, if_neg hne]
  obtain ⟨h₁, hh₁, hempty, hr₁⟩ := hr.clear_op (l := this) (hfuel this)
  let h₂ : Heap κ ν := (h₁.setList this (h₁.list list)).setList list {}
  have hmoved : Function.update r this [] list = r list := Function.update_of_ne hne ..
  obtain ⟨h₃, hh₃, hnode, hlist⟩ := adopt_spec (h := h₂) this
    (hmoved ▸ hr₁.forward list) (hfuel list)
  refine ⟨h₃, ?_, ?_⟩
  · rw [hh₁, Option.bind_some, if_pos hempty]
    exact hh₃
  · have hr₃ : Represents h₃ _ :=
      hr₁.adopt hne (Function.update_self ..) (fun y => ?_) fun k => ?_
    · rwa [hmoved, Function.update_idem] at hr₃
    · rw [hmoved]
      exact hnode y
    · rw [hlist]
      by_cases hk : k = list
      · rw [if_pos hk, hk, Heap.setList_self]
      · rw [if_neg hk, Heap.setList_of_ne hk]
        by_cases hk' : k = this
        · rw [if_pos hk', hk', Heap.setList_self]
        · rw [if_neg hk', Heap.setList_of_ne hk']

theorem destroyNode_op (hr : Represents h r) :
    ∃ h', h.destroyNode x = some h' ∧ Represents h' (r.apply (.destroyNode x)) := by
  rw [Heap.destroyNode, Lists.apply]
  cases hx : (h.node x).list with
  | none =>
      have hsame : (fun l => (r l).erase x) = r := by
        funext l
        refine List.erase_of_not_mem fun hl => ?_
        rw [hr.listed l x hl] at hx
        cases hx
      refine ⟨h, rfl, ?_⟩
      rw [hsame]
      exact hr
  | some l =>
      obtain ⟨next, h', hh', hr'⟩ := hr.erase_op (hr.mem_iff.2 hx)
      refine ⟨h', by dsimp only; rw [Heap.remove, hh']; rfl, ?_⟩
      have hsame : Function.update r l ((r l).erase x) = fun k => (r k).erase x := by
        funext k
        by_cases hk : k = l
        · rw [hk, Function.update_self]
        · rw [Function.update_of_ne hk]
          exact (List.erase_of_not_mem fun hm => hk (hr.unique hm (hr.mem_iff.2 hx))).symm
      exact hsame ▸ hr'

/-- An operation that is accepted does to the heap what it does to the lists. -/
theorem step (hr : Represents h r) {op : Op κ ν} (ha : r.Accepts op)
    (hfuel : ∀ l, (r l).length ≤ fuel) :
    ∃ h', h.step fuel op = some h' ∧ Represents h' (r.apply op) := by
  cases op with
  | pushBack l x =>
      obtain ⟨h', hh', -, hr'⟩ := hr.pushBack (l := l) ha
      exact ⟨h', hh', hr'⟩
  | pushFront l x => exact hr.pushFront_op ha
  | insert l pos x =>
      obtain ⟨h', hh', hr'⟩ := hr.insert_op ha.1 ha.2
      exact ⟨h', by rw [Heap.step, hh']; rfl, hr'⟩
  | erase l pos =>
      obtain ⟨p, rfl, hp⟩ := ha
      obtain ⟨next, h', hh', hr'⟩ := hr.erase_op hp
      refine ⟨h', by rw [Heap.step, hh']; rfl, ?_⟩
      rwa [Lists.apply, Lists.filter_eq (hr.nodup l)]
  | eraseRange l first last =>
      obtain ⟨h', hh', hr'⟩ := hr.eraseRange_op ha (hfuel l)
      exact ⟨h', by rw [Heap.step, hh']; rfl, hr'⟩
  | remove l x =>
      obtain ⟨next, h', hh', hr'⟩ := hr.erase_op ha
      exact ⟨h', by rw [Heap.step, Heap.remove, hh']; rfl, hr'⟩
  | clear l =>
      obtain ⟨h', hh', -, hr'⟩ := hr.clear_op (hfuel l)
      exact ⟨h', hh', hr'⟩
  | moveConstruct this list =>
      have hnil : r this = [] := ha
      have hempty : h.list this = {} := IntrusiveList.ext
        (by rw [hr.head_eq, hnil]; rfl) (by rw [hr.tail_eq, hnil]; rfl)
      have hsame : h.setList this {} = h := by
        rw [Heap.setList, ← hempty, Function.update_eq_self]
      rw [Heap.step, Heap.moveConstruct, hsame]
      exact hr.moveFrom_op hfuel
  | moveAssign this list => exact hr.moveFrom_op hfuel
  | destroyNode x => exact hr.destroyNode_op

end Represents

/-! ### Sequences of operations -/

namespace Lists

omit [DecidableEq ν] in
theorem update_length {n : ℕ} (h : ∀ l, (r l).length ≤ n) {xs : List ν} (hxs : xs.length ≤ n + 1)
    (k : κ) : (Function.update r l xs k).length ≤ n + 1 := by
  rw [Function.update_apply]
  split
  · exact hxs
  · exact Nat.le_succ_of_le (h k)

/-- An operation makes no list longer by more than a node. -/
theorem apply_length {n : ℕ} (h : ∀ l, (r l).length ≤ n) (op : Op κ ν) (k : κ) :
    (r.apply op k).length ≤ n + 1 := by
  cases op with
  | pushBack l x =>
      refine update_length h ?_ k
      rw [List.length_append]
      exact Nat.succ_le_succ (h l)
  | pushFront l x =>
      refine update_length h ?_ k
      exact Nat.succ_le_succ (h l)
  | insert l pos x =>
      refine update_length h ?_ k
      have hlength := congrArg List.length (before_append_from (r l) pos)
      rw [List.length_append] at hlength
      rw [List.length_append, List.length_cons, ← Nat.add_assoc, hlength]
      exact Nat.succ_le_succ (h l)
  | erase l pos =>
      exact update_length h (Nat.le_succ_of_le (Nat.le_trans (List.length_filter_le ..) (h l))) k
  | eraseRange l first last =>
      refine update_length h (Nat.le_succ_of_le (Nat.le_trans ?_ (h l))) k
      have hlength := congrArg List.length (before_append_from (r l) first)
      have hdrop := (List.dropWhile_sublist (l := Lists.from (r l) first)
        fun y => decide (last ≠ some y)).length_le
      rw [List.length_append] at hlength ⊢
      exact Nat.le_trans (Nat.add_le_add_left hdrop _) (Nat.le_of_eq hlength)
  | remove l x =>
      exact update_length h (Nat.le_succ_of_le (Nat.le_trans List.erase_sublist.length_le (h l))) k
  | clear l => exact update_length h (Nat.zero_le _) k
  | moveConstruct this list | moveAssign this list =>
      rw [apply]
      split
      · exact Nat.le_succ_of_le (h k)
      · rw [Function.update_apply]
        split
        · exact Nat.zero_le _
        · exact update_length h (Nat.le_succ_of_le (h list)) k
  | destroyNode x => exact Nat.le_succ_of_le (Nat.le_trans List.erase_sublist.length_le (h k))

end Lists

theorem Represents.run {fuel n : ℕ} {ops : List (Op κ ν)} (hr : Represents h r)
    (ha : r.AcceptsAll ops) (hlength : ∀ l, (r l).length ≤ n) (hfuel : n + ops.length ≤ fuel) :
    ∃ h', h.run fuel ops = some h' ∧ Represents h' (r.applyAll ops) := by
  induction ops generalizing h r n with
  | nil => exact ⟨h, rfl, hr⟩
  | cons op ops ih =>
      rw [List.length_cons] at hfuel
      have hle : n ≤ fuel := Nat.le_trans (Nat.le_add_right n _) hfuel
      obtain ⟨h₁, hh₁, hr₁⟩ := hr.step ha.1 fun l => Nat.le_trans (hlength l) hle
      obtain ⟨h', hh', hr'⟩ := ih hr₁ ha.2 (Lists.apply_length hlength op) (by omega)
      exact ⟨h', by rw [Heap.run, hh₁, Option.bind_some, hh'], hr'⟩

/-- **The pointers enumerate the lists**: every sequence of operations, each of them accepted where
it comes, goes through and does to the heap what it does to the lists. -/
theorem run_represents {ops : List (Op κ ν)} (ha : Lists.AcceptsAll (fun _ => []) ops) {fuel : ℕ}
    (hfuel : ops.length ≤ fuel) : ∃ h, Heap.run fuel ({} : Heap κ ν) ops = some h ∧
      Represents h (Lists.applyAll (fun _ => []) ops) :=
  Represents.init.run ha (n := 0) (fun _ => Nat.le_refl 0) (by rwa [Nat.zero_add])

/-- A node is put between two others, the list is moved, and its first two nodes are erased. -/
def movedList : List (Op Bool ℕ) :=
  [.pushBack false 0, .pushBack false 1, .insert false (some 1) 2, .moveAssign true false,
    .eraseRange true (some 0) (some 1)]

theorem movedList_represents : ∃ h : Heap Bool ℕ, Heap.run 5 {} movedList = some h ∧
    h.list true = ⟨some 1, some 1⟩ ∧ (h.node 1).list = some true ∧ h.node 0 = {} := by
  have haccepts : Lists.AcceptsAll (fun _ => []) movedList := by
    simp [movedList, Lists.AcceptsAll, Lists.Accepts, Lists.apply, Lists.IsFree, Lists.before,
      Lists.from]
  obtain ⟨h, hh, hr⟩ := run_represents haccepts (Nat.le_refl 5)
  have hlists : Lists.applyAll (fun _ => []) movedList = fun l => if l then [1] else [] := by
    funext l
    cases l <;> simp [movedList, Lists.applyAll, Lists.apply, Lists.before, Lists.from]
  rw [hlists] at hr
  exact ⟨h, hh, IntrusiveList.ext hr.head_eq hr.tail_eq, hr.listed true 1 (by simp),
    hr.free 0 (by simp [Lists.IsFree])⟩

end MyEngine.Containers
