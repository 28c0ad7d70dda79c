import MyEngine.Containers.IntrusiveList

/-!
# Containers — IntrusiveListLinks

How the pointers of a heap enumerate its lists, and that what links and unlinks one node keeps it.

* `Represents`: the lists are what `m_next` passes from their heads on, and `m_prev` backwards from
  their tails; the list of a node is the one it is in, and a node in none has no pointers.
* `Represents.update`: an operation on one list has to say what becomes of its own nodes.
-/

namespace MyEngine.Containers

open Links

variable {κ ν : Type}

structure Represents (h : Heap κ ν) (r : Lists κ ν) : Prop where
  forward : ∀ l, Seg (fun x => (h.node x).next) (h.list l).head (r l) none
  backward : ∀ l, Seg (fun x => (h.node x).prev) (h.list l).tail (r l).reverse none
  nodup : ∀ l, (r l).Nodup
  listed : ∀ l, ∀ x ∈ r l, (h.node x).list = some l
  free : ∀ x, r.IsFree x → h.node x = {}

namespace Represents

variable {h h' : Heap κ ν} {r : Lists κ ν} {l k : κ} {x y : ν}

theorem init : Represents ({} : Heap κ ν) fun _ => [] where
  forward _ := rfl
  backward _ := rfl
  nodup _ := List.nodup_nil
  listed _ _ hx := by cases hx
  free _ _ := rfl

/-- A node is in one list. -/
theorem unique (hr : Represents h r) (hl : x ∈ r l) (hk : x ∈ r k) : l = k :=
  Option.some.inj ((hr.listed l x hl).symm.trans (hr.listed k x hk))

theorem mem_iff (hr : Represents h r) : x ∈ r l ↔ (h.node x).list = some l := by
  refine ⟨hr.listed l x, fun hx => ?_⟩
  by_cases hfree : r.IsFree x
  · rw [hr.free x hfree] at hx
    cases hx
  · rw [Lists.IsFree] at hfree
    push Not at hfree
    obtain ⟨k, hk⟩ := hfree
    obtain rfl := Option.some.inj ((hr.listed k x hk).symm.trans hx)
    exact hk

/-! ### Around one node -/

section
variable {as bs : List ν} {p : ν}

/-- The links of a node lead to its neighbours. -/
theorem next_eq (hr : Represents h r) (hl : r l = as ++ p :: bs) : (h.node p).next = bs.head? := by
  have hf := hr.forward l
  rw [hl, Seg.append_cons_iff] at hf
  exact hf.2.eq_head?

theorem reverse_split (hl : r l = as ++ p :: bs) :
    (r l).reverse = bs.reverse ++ p :: as.reverse := by
  rw [hl, List.reverse_append, List.reverse_cons, List.append_assoc, List.singleton_append]

theorem prev_eq (hr : Represents h r) (hl : r l = as ++ p :: bs) :
    (h.node p).prev = as.getLast? := by
  have hb := hr.backward l
  rw [reverse_split hl, Seg.append_cons_iff] at hb
  rw [hb.2.eq_head?, List.head?_reverse]

theorem head_eq (hr : Represents h r) : (h.list l).head = (r l).head? := (hr.forward l).eq_head?

theorem tail_eq (hr : Represents h r) : (h.list l).tail = (r l).getLast? := by
  rw [(hr.backward l).eq_head?, List.head?_reverse]

/-- The node in front of `p` is linked to it. -/
theorem next_of_prev (hr : Represents h r) (hl : r l = as ++ p :: bs) {q : ν}
    (hq : as.getLast? = some q) : (h.node q).next = some p := by
  obtain ⟨as, rfl⟩ := List.getLast?_eq_some_iff.1 hq
  rw [List.append_assoc, List.singleton_append] at hl
  exact hr.next_eq hl

theorem prev_of_next (hr : Represents h r) (hl : r l = as ++ p :: bs) {q : ν}
    (hq : bs.head? = some q) : (h.node q).prev = some p := by
  obtain ⟨bs, rfl⟩ := List.head?_eq_some_iff.1 hq
  rw [← List.singleton_append, ← List.append_assoc] at hl
  rw [hr.prev_eq hl, List.getLast?_concat]

end

end Represents

/-! ### The effects on the heap -/

namespace Heap

variable {h : Heap κ ν} {x y : ν} {f : Node κ ν → Node κ ν} {l k : κ} {v : IntrusiveList ν}

section
variable [DecidableEq ν]

theorem modify_node : (h.modify x f).node y = if y = x then f (h.node x) else h.node y :=
  Function.update_apply ..

@[simp] theorem modify_list : (h.modify x f).list = h.list := rfl

theorem clear_node :
    (h.clearListElementState x).node y = if y = x then {} else h.node y := modify_node

@[simp] theorem clear_list : (h.clearListElementState x).list = h.list := rfl

end

section
variable [DecidableEq κ]

@[simp] theorem setList_node : (h.setList l v).node = h.node := rfl

@[simp] theorem setList_self : (h.setList l v).list l = v := Function.update_self ..

theorem setList_of_ne (hne : k ≠ l) : (h.setList l v).list k = h.list k :=
  Function.update_of_ne hne ..

end

end Heap

variable [DecidableEq κ] [DecidableEq ν] {h h' : Heap κ ν} {r : Lists κ ν} {l : κ} {xs : List ν}

namespace Represents

/-- One list becomes `xs`, the others stay. -/
theorem update (hr : Represents h r) (hlist : ∀ k, k ≠ l → h'.list k = h.list k)
    (hnode : ∀ y, y ∉ r l → y ∉ xs → h'.node y = h.node y)
    (hnew : ∀ y ∈ xs, y ∈ r l ∨ r.IsFree y)
    (hforward : Seg (fun x => (h'.node x).next) (h'.list l).head xs none)
    (hbackward : Seg (fun x => (h'.node x).prev) (h'.list l).tail xs.reverse none)
    (hnodup : xs.Nodup) (hlisted : ∀ x ∈ xs, (h'.node x).list = some l)
    (hcleared : ∀ y ∈ r l, y ∉ xs → h'.node y = {}) :
    Represents h' (Function.update r l xs) := by
  have hother : ∀ k, k ≠ l → ∀ y ∈ r k, h'.node y = h.node y := by
    intro k hk y hy
    have hl : y ∉ r l := fun hl => hk (hr.unique hy hl)
    exact hnode y hl fun hxs => (hnew y hxs).elim hl fun hfree => hfree k hy
  constructor
  · intro k
    by_cases hk : k = l
    · subst hk
      rwa [Function.update_self]
    · rw [Function.update_of_ne hk, hlist k hk]
      exact (hr.forward k).congr fun y hy => by rw [hother k hk y hy]
  · intro k
    by_cases hk : k = l
    · subst hk
      rwa [Function.update_self]
    · rw [Function.update_of_ne hk, hlist k hk]
      exact (hr.backward k).congr fun y hy => by rw [hother k hk y (List.mem_reverse.1 hy)]
  · intro k
    by_cases hk : k = l
    · subst hk
      rwa [Function.update_self]
    · rw [Function.update_of_ne hk]
      exact hr.nodup k
  · intro k y hy
    by_cases hk : k = l
    · subst hk
      rw [Function.update_self] at hy
      exact hlisted y hy
    · rw [Function.update_of_ne hk] at hy
      rw [hother k hk y hy]
      exact hr.listed k y hy
  · intro y hfree
    have hxs : y ∉ xs := by
      have := hfree l
      rwa [Function.update_self] at this
    by_cases hl : y ∈ r l
    · exact hcleared y hl hxs
    · rw [hnode y hl hxs]
      refine hr.free y fun k hk => ?_
      have hne : k ≠ l := fun hkl => hl (hkl ▸ hk)
      exact hfree k (by rwa [Function.update_of_ne hne])

end Represents

/-! ### One node is unlinked -/

namespace Heap

variable {p : ν} (prev next : Option ν)

theorem linkPrev_spec (hprev : ∀ q, prev = some q → (h.node q).next = some p) :
    ∃ h', h.linkPrev l p prev next = some h' ∧
      (∀ y, h'.node y = if prev = some y then { h.node y with next := next } else h.node y) ∧
      (∀ k, k ≠ l → h'.list k = h.list k) ∧ (h'.list l).tail = (h.list l).tail ∧
      (h'.list l).head = if prev = none then next else (h.list l).head := by
  cases prev with
  | none =>
      refine ⟨_, rfl, fun y => rfl, fun k hk => Heap.setList_of_ne hk, ?_, ?_⟩ <;>
        rw [Heap.setList_self]
      rfl
  | some q =>
      refine ⟨_, if_pos (hprev q rfl), fun y => ?_, fun k _ => rfl, rfl, rfl⟩
      rw [Heap.modify_node]
      by_cases hy : y = q
      · subst hy
        rw [if_pos rfl, if_pos rfl]
      · rw [if_neg hy, if_neg fun he => hy (Option.some.inj he).symm]

theorem linkNext_spec (hnext : ∀ q, next = some q → (h.node q).prev = some p) :
    ∃ h', h.linkNext l p prev next = some h' ∧
      (∀ y, h'.node y = if next = some y then { h.node y with prev := prev } else h.node y) ∧
      (∀ k, k ≠ l → h'.list k = h.list k) ∧ (h'.list l).head = (h.list l).head ∧
      (h'.list l).tail = if next = none then prev else (h.list l).tail := by
  cases next with
  | none =>
      refine ⟨_, rfl, fun y => rfl, fun k hk => Heap.setList_of_ne hk, ?_, ?_⟩ <;>
        rw [Heap.setList_self]
      rfl
  | some q =>
      refine ⟨_, if_pos (hnext q rfl), fun y => ?_, fun k _ => rfl, rfl, rfl⟩
      rw [Heap.modify_node]
      by_cases hy : y = q
      · subst hy
        rw [if_pos rfl, if_pos rfl]
      · rw [if_neg hy, if_neg fun he => hy (Option.some.inj he).symm]

end Heap

section
variable {as bs : List ν} {p x : ν}

omit [DecidableEq ν] in
theorem nodup_remove (h : (as ++ p :: bs).Nodup) : (as ++ bs).Nodup ∧ p ∉ as ++ bs := by
  rw [List.nodup_middle] at h
  exact ⟨(List.nodup_cons.1 h).2, (List.nodup_cons.1 h).1⟩

/-- The heap behind `erase`. -/
theorem Represents.erase_heap (hr : Represents h r) (hl : r l = as ++ p :: bs) :
    ∃ h', h.erase l (some p) = some (bs.head?, h') ∧ h'.node p = {} ∧
      (∀ y, y ≠ p → h'.node y =
        { h.node y with
          next := if as.getLast? = some y then bs.head? else (h.node y).next
          prev := if bs.head? = some y then as.getLast? else (h.node y).prev }) ∧
      (∀ k, k ≠ l → h'.list k = h.list k) ∧
      (h'.list l).head = (if as.getLast? = none then bs.head? else (h.list l).head) ∧
      (h'.list l).tail = (if bs.head? = none then as.getLast? else (h.list l).tail) := by
  have hp : (h.node p).list = some l := hr.listed l p (by rw [hl]; simp)
  obtain ⟨h₁, hh₁, hnode₁, hlist₁, htail₁, hhead₁⟩ :=
    Heap.linkPrev_spec (h := h) (l := l) (p := p) as.getLast? bs.head?
      fun q hq => hr.next_of_prev hl hq
  obtain ⟨h₂, hh₂, hnode₂, hlist₂, hhead₂, htail₂⟩ :=
    Heap.linkNext_spec (h := h₁) (l := l) (p := p) as.getLast? bs.head?
      fun q hq => by
        rw [hnode₁ q, ← hr.prev_of_next hl hq]
        split <;> rfl
  refine ⟨h₂.clearListElementState p, ?_, ?_, fun y hy => ?_, fun k hk => ?_, ?_, ?_⟩
  · rw [Heap.erase]
    dsimp only
    rw [if_pos hp, hr.prev_eq hl, hr.next_eq hl, hh₁, Option.bind_some, hh₂]
    rfl
  · rw [Heap.clear_node, if_pos rfl]
  · rw [Heap.clear_node, if_neg hy, hnode₂ y, hnode₁ y]
    split <;> split <;> simp [*]
  · rw [Heap.clear_list, hlist₂ k hk, hlist₁ k hk]
  · rw [Heap.clear_list, hhead₂, hhead₁]
  · rw [Heap.clear_list, htail₂, htail₁]

/-- `erase` takes the node out of its list and gives the one behind it. -/
theorem Represents.erase (hr : Represents h r) (hl : r l = as ++ p :: bs) :
    ∃ h', h.erase l (some p) = some (bs.head?, h') ∧
      Represents h' (Function.update r l (as ++ bs)) := by
  obtain ⟨h', hh', hp, hnode, hlist, hhead, htail⟩ := hr.erase_heap hl
  obtain ⟨hnodup, hnot⟩ := nodup_remove (hl ▸ hr.nodup l)
  have hmem : ∀ y, y ∈ r l ↔ y ∈ as ++ bs ∨ y = p := by
    intro y
    rw [hl]
    simp only [List.mem_append, List.mem_cons]
    tauto
  have hne : ∀ y ∈ as ++ bs, y ≠ p := fun y hy hyp => hnot (hyp ▸ hy)
  refine ⟨h', hh', hr.update hlist (fun y hy hny => ?_) (fun y hy => .inl ((hmem y).2 (.inl hy)))
    ?_ ?_ hnodup (fun y hy => ?_) fun y hy hny => ?_⟩
  · -- the neighbours are in the list
    rw [List.mem_append, not_or] at hny
    rw [hnode y fun hyp => hy ((hmem y).2 (.inr hyp)),
      if_neg fun hlast => hny.1 (List.mem_of_getLast? hlast),
      if_neg fun hhead => hny.2 (List.mem_of_head? hhead)]
  · refine (hl ▸ hr.forward l).unlink hnodup ?_ fun y hy => ?_
    · rw [hhead, hr.next_eq hl]
    · rw [hnode y (hne y hy), hr.next_eq hl]
  · have hb := hr.backward l
    rw [Represents.reverse_split hl] at hb
    rw [List.reverse_append]
    refine hb.unlink (by rw [← List.reverse_append]; exact List.nodup_reverse.2 hnodup) ?_
      fun y hy => ?_
    · rw [htail, hr.prev_eq hl, List.getLast?_reverse]
    · rw [← List.reverse_append, List.mem_reverse] at hy
      rw [hnode y (hne y hy), hr.prev_eq hl, List.getLast?_reverse]
  · rw [hnode y (hne y hy)]
    exact hr.listed l y ((hmem y).2 (.inl hy))
  · obtain rfl := ((hmem y).1 hy).resolve_left hny
    exact hp

/-! ### One node is linked -/

/-- The heap behind an insertion of `x` between `as` and `bs`. -/
theorem Represents.linked (hr : Represents h r) (as bs : List ν) (hl : r l = as ++ bs)
    (hfree : r.IsFree x)
    (hx : h'.node x = { list := some l, prev := as.getLast?, next := bs.head? })
    (hnode : ∀ y, y ≠ x → h'.node y =
      { h.node y with
        next := if as.getLast? = some y then some x else (h.node y).next
        prev := if bs.head? = some y then some x else (h.node y).prev })
    (hlist : ∀ k, k ≠ l → h'.list k = h.list k)
    (hhead : (h'.list l).head = if as.getLast? = none then some x else (h.list l).head)
    (htail : (h'.list l).tail = if bs.head? = none then some x else (h.list l).tail) :
    Represents h' (Function.update r l (as ++ x :: bs)) := by
  have hnodup : (as ++ bs).Nodup := hl ▸ hr.nodup l
  have hnot : x ∉ as ++ bs := hl ▸ hfree l
  have hne : ∀ y ∈ as ++ bs, y ≠ x := fun y hy hyx => hnot (hyx ▸ hy)
  have hmem : ∀ y, y ∈ as ++ x :: bs ↔ y ∈ r l ∨ y = x := by
    intro y
    rw [hl]
    simp only [List.mem_append, List.mem_cons]
    tauto
  refine hr.update hlist (fun y hy hny => ?_) (fun y hy => ?_) ?_ ?_
    (List.nodup_middle.2 (List.nodup_cons.2 ⟨hnot, hnodup⟩)) (fun y hy => ?_) fun y hy hny => ?_
  · rw [hl, List.mem_append, not_or] at hy
    rw [hnode y fun hyx => hny ((hmem y).2 (.inr hyx)),
      if_neg fun hlast => hy.1 (List.mem_of_getLast? hlast),
      if_neg fun hhead => hy.2 (List.mem_of_head? hhead)]
  · rcases (hmem y).1 hy with hy | rfl
    · exact .inl hy
    · exact .inr hfree
  · refine (hl ▸ hr.forward l).link hnodup hhead (fun y hy => ?_) ?_
    · rw [hnode y (hne y hy)]
    · rw [hx]
  · have hb := hr.backward l
    rw [hl, List.reverse_append] at hb
    rw [List.reverse_append, List.reverse_cons, List.append_assoc, List.singleton_append]
    refine hb.link (by rw [← List.reverse_append]; exact List.nodup_reverse.2 hnodup) ?_
      (fun y hy => ?_) ?_
    · rw [htail, List.getLast?_reverse]
    · rw [← List.reverse_append, List.mem_reverse] at hy
      rw [hnode y (hne y hy), List.getLast?_reverse]
    · rw [hx, List.head?_reverse]
  · rcases (hmem y).1 hy with hy | rfl
    · rw [hnode y (hne y (hl ▸ hy))]
      exact hr.listed l y hy
    · rw [hx]
  · exact absurd ((hmem y).2 (.inl hy)) hny

theorem Represents.asFreeNode (hr : Represents h r) (hfree : r.IsFree x) :
    h.asFreeNode l x = some (h.modify x fun n => { n with list := some l }) :=
  if_pos (hr.free x hfree)

/-- `push_back` puts the node behind the others, at the tail. -/
theorem Represents.pushBack (hr : Represents h r) (hfree : r.IsFree x) :
    ∃ h', h.pushBack l x = some h' ∧ (h'.list l).tail = some x ∧
      Represents h' (Function.update r l (r l ++ [x])) := by
  have hhead := hr.head_eq (l := l)
  have htail := hr.tail_eq (l := l)
  have hx : h.node x = {} := hr.free x hfree
  rw [Heap.pushBack, hr.asFreeNode hfree, Option.bind_some, Heap.linkBack, Heap.modify_list]
  cases hlast : (r l).getLast? with
  | none =>
      have hnil := List.getLast?_eq_none_iff.1 hlast
      rw [hnil] at hhead htail ⊢
      rw [hhead, htail]
      refine ⟨_, rfl, by rw [Heap.setList_self], ?_⟩
      refine hr.linked [] [] hnil hfree ?_ (fun y hy => ?_) (fun k hk => ?_) ?_ ?_
      · rw [Heap.setList_node, Heap.modify_node, if_pos rfl, hx]
        rfl
      · rw [Heap.setList_node, Heap.modify_node, if_neg hy]
        rfl
      · rw [Heap.setList_of_ne hk, Heap.modify_list]
      · rw [Heap.setList_self]
        rfl
      · rw [Heap.setList_self]
        rfl
  | some t =>
      obtain ⟨a, ha⟩ := Option.isSome_iff_exists.1
        (List.isSome_head?.2 (List.ne_nil_of_mem (List.mem_of_getLast? hlast)))
      have htx : t ≠ x := fun h => hfree l (h ▸ List.mem_of_getLast? hlast)
      rw [hlast] at htail
      rw [ha] at hhead
      rw [hhead, htail]
      refine ⟨_, rfl, by rw [Heap.setList_self], ?_⟩
      refine hr.linked (r l) [] (List.append_nil _).symm hfree ?_ (fun y hy => ?_)
        (fun k hk => ?_) ?_ ?_
      · rw [Heap.setList_node, Heap.modify_node, if_pos rfl, Heap.modify_node, if_neg htx.symm,
          Heap.modify_node, if_pos rfl, hx, hlast]
        rfl
      · rw [Heap.setList_node, Heap.modify_node, if_neg hy, Heap.modify_node, hlast]
        by_cases hyt : y = t
        · subst hyt
          rw [if_pos rfl, Heap.modify_node, if_neg hy, if_pos rfl]
          rfl
        · rw [if_neg hyt, Heap.modify_node, if_neg hy, if_neg fun h => hyt (Option.some.inj h).symm]
          rfl
      · rw [Heap.setList_of_ne hk]
        rfl
      · rw [Heap.setList_self, hlast]
        rfl
      · rw [Heap.setList_self]
        rfl

theorem Heap.linkBefore_node (hpx : p ≠ x) (hx : (h.node p).prev ≠ some x)
    (hp : (h.node p).prev ≠ some p) (y : ν) : (h.linkBefore l p x).node y =
      if y = x then { h.node x with next := some p, prev := (h.node p).prev }
      else if y = p then { h.node p with prev := some x }
      else if (h.node p).prev = some y then { h.node y with next := some x } else h.node y := by
  have hset : ∀ g : Heap κ ν, (if (g.list l).head = some p then
      g.setList l { g.list l with head := some x } else g).node = g.node := by
    intro g
    split <;> rfl
  rw [linkBefore]
  dsimp only
  rw [hset]
  cases hprev : (h.node p).prev with
  | none =>
      simp only [modify_node]
      by_cases hyp : y = p
      · subst hyp
        simp [hpx]
      · simp [hyp]
  | some q =>
      have hqx : q ≠ x := fun h => hx (h ▸ hprev)
      have hqp : q ≠ p := fun h => hp (h ▸ hprev)
      simp only [modify_node]
      by_cases hyp : y = p
      · subst hyp
        simp [hpx, hqp.symm]
      · by_cases hyq : y = q
        · subst hyq
          simp [hyp, hqx]
        · simp [hyp, hyq, Ne.symm hyq]

theorem Heap.linkBefore_list : (h.linkBefore l p x).list =
    if (h.list l).head = some p then (h.setList l { h.list l with head := some x }).list
    else h.list := by
  rw [linkBefore]
  cases (h.node p).prev with
  | none | some q =>
      by_cases hh : (h.list l).head = some p <;> simp [hh, setList]

/-- `insert` in front of a node of the list. -/
theorem Represents.insert (hr : Represents h r) (hl : r l = as ++ p :: bs) (hfree : r.IsFree x) :
    ∃ h', h.insert l (some p) x = some (some x, h') ∧
      Represents h' (Function.update r l (as ++ x :: p :: bs)) := by
  have hx : h.node x = {} := hr.free x hfree
  have hp : p ∈ r l := by rw [hl]; simp
  have hpx : p ≠ x := fun h => hfree l (h ▸ hp)
  have hnot := (nodup_remove (hl ▸ hr.nodup l)).2
  have hpnode : ((h.modify x fun n => { n with list := some l }).node p) = h.node p := by
    rw [Heap.modify_node, if_neg hpx]
  have hprev := hr.prev_eq hl
  have hlast : ∀ y, as.getLast? = some y → y ∈ as := fun y => List.mem_of_getLast?
  have hprevx : as.getLast? ≠ some x := fun h =>
    hfree l (hl ▸ List.mem_append_left _ (hlast x h))
  have hprevp : as.getLast? ≠ some p := fun h => hnot (List.mem_append_left _ (hlast p h))
  have hnode := Heap.linkBefore_node (h := h.modify x fun n => { n with list := some l }) (l := l)
    hpx (by rw [hpnode, hprev]; exact hprevx) (by rw [hpnode, hprev]; exact hprevp)
  simp only [hpnode, hprev] at hnode
  have hhead : (h.list l).head = some p ↔ as.getLast? = none := by
    rw [hr.head_eq, hl, List.getLast?_eq_none_iff]
    cases as with
    | nil => simp
    | cons a as =>
        have hap : a ≠ p := fun h => hnot (h ▸ List.mem_cons_self)
        simp [hap]
  refine ⟨(h.modify x fun n => { n with list := some l }).linkBefore l p x, ?_,
    hr.linked as (p :: bs) hl hfree ?_ (fun y hy => ?_) (fun k hk => ?_) ?_ ?_⟩
  · rw [Heap.insert, if_pos (hr.listed l p hp), hr.asFreeNode hfree]
    rfl
  · rw [hnode x, if_pos rfl, Heap.modify_node, if_pos rfl, hx]
    rfl
  · rw [hnode y, if_neg hy, Heap.modify_node, if_neg hy, List.head?_cons]
    by_cases hyp : y = p
    · subst hyp
      rw [if_pos rfl, if_neg hprevp, if_pos rfl]
    · rw [if_neg hyp, if_neg fun h => hyp (Option.some.inj h).symm]
      split <;> rfl
  · rw [Heap.linkBefore_list, Heap.modify_list]
    split
    · rw [Heap.setList_of_ne hk, Heap.modify_list]
    · rfl
  · rw [Heap.linkBefore_list, Heap.modify_list]
    by_cases h' : (h.list l).head = some p
    · rw [if_pos h', if_pos (hhead.1 h'), Heap.setList_self]
    · rw [if_neg h', if_neg fun hn => h' (hhead.2 hn)]
  · rw [Heap.linkBefore_list, Heap.modify_list]
    split
    · rw [Heap.setList_self]
      rfl
    · rfl

end

end MyEngine.Containers
