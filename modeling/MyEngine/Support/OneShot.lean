import Mathlib.Data.List.Nodup

/-!
# Support — OneShot

Subscribers that are notified once: they are entered in a list until a loop over the list starts,
or are notified at once.  A subscriber may leave at any time; the loop passes over it when it has.

* `Ledger.Step`: what can happen, one event at a time.
* `Ledger.Inv`: what the loop has passed is settled and what it has not is untouched.
* `Inv.count_le_one`, `Step.count_of_left`, `Inv.count_eq_one`: nobody is notified twice or after
  leaving, and behind the loop everybody who stayed has been notified.
-/

namespace MyEngine.OneShot

/-- `loop` is the place of the running loop; `subscribed` counts the subscribers, `notified` are
those notified so far and `left` those that have left. -/
structure Ledger where
  started : Bool := false
  loop : Option Nat := none
  entries : List Nat := []
  subscribed : Nat := 0
  notified : List Nat := []
  left : List Nat := []

namespace Ledger

inductive Step : Ledger → Ledger → Prop where
  | enter {l : Ledger} (h : l.started = false) : Step l { l with
      entries := l.entries ++ [l.subscribed], subscribed := l.subscribed + 1 }
  | atOnce (l : Ledger) : Step l { l with
      subscribed := l.subscribed + 1, notified := l.notified ++ [l.subscribed] }
  | leave {l : Ledger} {id : Nat} (h : id ∈ l.entries) : Step l { l with left := l.left ++ [id] }
  | start {l : Ledger} (h : l.started = false) : Step l { l with started := true, loop := some 0 }
  | notify {l : Ledger} {i id : Nat} (hl : l.loop = some i) (h : l.entries[i]? = some id)
      (hid : id ∉ l.left) :
      Step l { l with loop := some (i + 1), notified := l.notified ++ [id] }
  | pass {l : Ledger} {i id : Nat} (hl : l.loop = some i) (h : l.entries[i]? = some id)
      (hid : id ∈ l.left) : Step l { l with loop := some (i + 1) }
  | finish {l : Ledger} {i : Nat} (hl : l.loop = some i) (h : l.entries.length ≤ i) :
      Step l { l with loop := none }

/-- How many entries the loop has passed. -/
def passed (l : Ledger) : Nat :=
  match l.loop with
  | some i => i
  | none   => if l.started then l.entries.length else 0

theorem passed_of_loop {l : Ledger} {i : Nat} (hl : l.loop = some i) : l.passed = i := by
  rw [passed, hl]

structure Inv (l : Ledger) : Prop where
  idle : l.started = false → l.loop = none
  nodup : l.entries.Nodup
  entered : ∀ id ∈ l.entries, id < l.subscribed
  notified : ∀ id ∈ l.notified, id < l.subscribed
  left : ∀ id ∈ l.left, id ∈ l.entries
  reached : ∀ id < l.subscribed, id ∈ l.entries ∨ l.notified.count id = 1
  settled : ∀ i id, l.entries[i]? = some id → i < l.passed →
    l.notified.count id ≤ 1 ∧ (id ∉ l.left → l.notified.count id = 1)
  untouched : ∀ i id, l.entries[i]? = some id → l.passed ≤ i → l.notified.count id = 0

namespace Inv

variable {l l' : Ledger}

theorem init : Inv {} where
  idle _ := rfl
  nodup := List.nodup_nil
  entered _ h := nomatch h
  notified _ h := nomatch h
  left _ h := nomatch h
  reached _ h := nomatch h
  settled _ _ h := nomatch h
  untouched _ _ h := nomatch h

theorem fresh (h : Inv l) : l.notified.count l.subscribed = 0 :=
  List.count_eq_zero.2 fun hmem => Nat.lt_irrefl _ (h.notified _ hmem)

theorem passed_eq_zero (h : Inv l) (hs : l.started = false) : l.passed = 0 := by
  rw [passed, h.idle hs, hs]
  rfl

/-- The place of an entry by its subscriber. -/
theorem index_unique (h : Inv l) {i j id : Nat} (hi : l.entries[i]? = some id)
    (hj : l.entries[j]? = some id) : i = j :=
  (List.getElem?_inj (List.getElem?_eq_some_iff.1 hi).1 h.nodup).1 (hi.trans hj.symm)

/-- Only the subscriber notified last counts once more. -/
theorem count_concat {ids : List Nat} {id id' : Nat} (hne : id ≠ id') :
    (ids ++ [id']).count id = ids.count id := by
  rw [List.count_append, List.count_eq_zero.2 fun hmem => hne (List.mem_singleton.1 hmem)]
  rfl

theorem enter (h : Inv l) (hs : l.started = false) : Inv { l with
    entries := l.entries ++ [l.subscribed], subscribed := l.subscribed + 1 } := by
  have hfresh : l.subscribed ∉ l.entries := fun hmem => Nat.lt_irrefl _ (h.entered _ hmem)
  have hpassed : passed { l with
      entries := l.entries ++ [l.subscribed], subscribed := l.subscribed + 1 } = 0 := by
    rw [passed]
    dsimp only
    rw [h.idle hs, hs]
    rfl
  constructor
  · exact h.idle
  · exact List.nodup_append.2 ⟨h.nodup, List.nodup_singleton _,
      fun id hid id' hid' heq => hfresh (List.mem_singleton.1 hid' ▸ heq ▸ hid)⟩
  · intro id hid
    rcases List.mem_append.1 hid with hid | hid
    · exact Nat.lt_succ_of_lt (h.entered id hid)
    · exact List.mem_singleton.1 hid ▸ Nat.lt_succ_self _
  · exact fun id hid => Nat.lt_succ_of_lt (h.notified id hid)
  · exact fun id hid => List.mem_append_left _ (h.left id hid)
  · intro id hid
    rcases Nat.lt_succ_iff_lt_or_eq.1 hid with hid | rfl
    · exact (h.reached id hid).imp_left (List.mem_append_left _)
    · exact .inl (List.mem_append_right _ (List.mem_singleton.2 rfl))
  · intro i id _ hi
    rw [hpassed] at hi
    exact absurd hi (Nat.not_lt_zero _)
  · intro i id hid _
    rcases List.mem_append.1 (List.mem_of_getElem? hid) with hid | hid
    · obtain ⟨j, hj⟩ := List.getElem?_of_mem hid
      exact h.untouched j id hj (h.passed_eq_zero hs ▸ Nat.zero_le _)
    · exact List.mem_singleton.1 hid ▸ h.fresh

theorem atOnce (h : Inv l) : Inv { l with
    subscribed := l.subscribed + 1, notified := l.notified ++ [l.subscribed] } := by
  have hcount : ∀ id, id < l.subscribed →
      (l.notified ++ [l.subscribed]).count id = l.notified.count id :=
    fun id hid => count_concat (Nat.ne_of_lt hid)
  have hentry : ∀ {i id}, l.entries[i]? = some id → id < l.subscribed :=
    fun hid => h.entered _ (List.mem_of_getElem? hid)
  constructor
  · exact h.idle
  · exact h.nodup
  · exact fun id hid => Nat.lt_succ_of_lt (h.entered id hid)
  · intro id hid
    rcases List.mem_append.1 hid with hid | hid
    · exact Nat.lt_succ_of_lt (h.notified id hid)
    · exact List.mem_singleton.1 hid ▸ Nat.lt_succ_self _
  · exact h.left
  · intro id hid
    rcases Nat.lt_succ_iff_lt_or_eq.1 hid with hid | rfl
    · dsimp only
      rw [hcount id hid]
      exact h.reached id hid
    · refine .inr ?_
      dsimp only
      rw [List.count_append, h.fresh, List.count_singleton_self]
  · intro i id hid hi
    dsimp only
    rw [hcount _ (hentry hid)]
    exact h.settled i id hid hi
  · intro i id hid hi
    dsimp only
    rw [hcount _ (hentry hid)]
    exact h.untouched i id hid hi

theorem leave (h : Inv l) {id : Nat} (hmem : id ∈ l.entries) :
    Inv { l with left := l.left ++ [id] } := by
  refine { h with left := fun id' hid => ?_, settled := fun i id' hid hi => ?_ }
  · rcases List.mem_append.1 hid with hid | hid
    · exact h.left id' hid
    · exact List.mem_singleton.1 hid ▸ hmem
  · obtain ⟨hle, heq⟩ := h.settled i id' hid hi
    exact ⟨hle, fun hstays => heq fun hleft => hstays (List.mem_append_left _ hleft)⟩

theorem start (h : Inv l) (hs : l.started = false) :
    Inv { l with started := true, loop := some 0 } := by
  refine { h with idle := nofun, settled := fun i id _ hi => ?_, untouched := fun i id hid _ => ?_ }
  · exact absurd hi (Nat.not_lt_zero _)
  · exact h.untouched i id hid (h.passed_eq_zero hs ▸ Nat.zero_le _)

/-- The loop moves by one entry; `hid` settles that entry. -/
theorem advance (h : Inv l) {i : Nat} {ids : List Nat} (hl : l.loop = some i)
    (hknown : ∀ id ∈ ids, id < l.subscribed)
    (hother : ∀ j id, l.entries[j]? = some id → j ≠ i → ids.count id = l.notified.count id)
    (hat : ∀ id, l.entries[i]? = some id → ids.count id ≤ 1 ∧ (id ∉ l.left → ids.count id = 1))
    (hlate : ∀ id, id ∉ l.entries → ids.count id = l.notified.count id) :
    Inv { l with loop := some (i + 1), notified := ids } := by
  have hpassed := passed_of_loop hl
  refine { h with
    idle := fun hs => absurd (hl.symm.trans (h.idle hs)) nofun
    notified := hknown
    reached := fun id hid => ?_
    settled := fun j id hid hj => ?_
    untouched := fun j id hid hj => ?_ }
  · by_cases hmem : id ∈ l.entries
    · exact .inl hmem
    · refine .inr ?_
      dsimp only
      rw [hlate id hmem]
      exact (h.reached id hid).resolve_left hmem
  · rcases Nat.lt_succ_iff_lt_or_eq.1 hj with hj | rfl
    · dsimp only
      rw [hother j id hid (Nat.ne_of_lt hj)]
      exact h.settled j id hid (hpassed ▸ hj)
    · exact hat id hid
  · have hj : i + 1 ≤ j := hj
    dsimp only
    rw [hother j id hid (Nat.ne_of_gt hj)]
    exact h.untouched j id hid (hpassed ▸ Nat.le_of_lt hj)

theorem notify (h : Inv l) {i id : Nat} (hl : l.loop = some i) (hid : l.entries[i]? = some id) :
    Inv { l with loop := some (i + 1), notified := l.notified ++ [id] } := by
  have hmem := List.mem_of_getElem? hid
  refine h.advance hl (fun id' hid' => ?_) (fun j id' hid' hj => ?_) (fun id' hid' => ?_)
    (fun id' hid' => ?_)
  · rcases List.mem_append.1 hid' with hid' | hid'
    · exact h.notified id' hid'
    · exact List.mem_singleton.1 hid' ▸ h.entered id hmem
  · exact count_concat fun heq => hj (h.index_unique hid' (heq ▸ hid))
  · obtain rfl : id = id' := Option.some.inj (hid.symm.trans hid')
    have hzero := h.untouched i id hid (Nat.le_of_eq (passed_of_loop hl))
    rw [List.count_append, hzero, List.count_singleton_self]
    exact ⟨Nat.le_refl _, fun _ => rfl⟩
  · exact count_concat fun heq => hid' (heq ▸ hmem)

theorem pass (h : Inv l) {i id : Nat} (hl : l.loop = some i) (hid : l.entries[i]? = some id)
    (hleft : id ∈ l.left) : Inv { l with loop := some (i + 1) } := by
  refine h.advance hl h.notified (fun _ _ _ _ => rfl) (fun id' hid' => ?_) fun _ _ => rfl
  obtain rfl : id = id' := Option.some.inj (hid.symm.trans hid')
  have hzero := h.untouched i id hid (Nat.le_of_eq (passed_of_loop hl))
  exact ⟨hzero ▸ Nat.zero_le _, fun hstays => absurd hleft hstays⟩

theorem finish (h : Inv l) {i : Nat} (hl : l.loop = some i) (hi : l.entries.length ≤ i) :
    Inv { l with loop := none } := by
  have hlt : ∀ {j id : Nat}, l.entries[j]? = some id → j < l.entries.length :=
    fun hid => (List.getElem?_eq_some_iff.1 hid).1
  refine { h with
    idle := fun _ => rfl
    settled := fun j id hid _ => h.settled j id hid ?_
    untouched := fun j id hid hj => ?_ }
  · rw [passed_of_loop hl]
    exact Nat.lt_of_lt_of_le (hlt hid) hi
  · have hs : l.started = true := by
      cases hs : l.started with
      | false => exact absurd (hl.symm.trans (h.idle hs)) nofun
      | true => rfl
    rw [passed] at hj
    dsimp only at hj
    rw [hs, if_pos rfl] at hj
    exact absurd (hlt hid) (Nat.not_lt.2 hj)

theorem step (h : Inv l) (hs : Step l l') : Inv l' := by
  cases hs with
  | enter hs => exact h.enter hs
  | atOnce => exact h.atOnce
  | leave hmem => exact h.leave hmem
  | start hs => exact h.start hs
  | notify hl hid hstays => exact h.notify hl hid
  | pass hl hid hleft => exact h.pass hl hid hleft
  | finish hl hi => exact h.finish hl hi

theorem count_le_one (h : Inv l) (id : Nat) : l.notified.count id ≤ 1 := by
  by_cases hid : id < l.subscribed
  · rcases h.reached id hid with hmem | hone
    · obtain ⟨i, hi⟩ := List.getElem?_of_mem hmem
      rcases Nat.lt_or_ge i l.passed with hlt | hge
      · exact (h.settled i id hi hlt).1
      · exact h.untouched i id hi hge ▸ Nat.zero_le _
    · exact Nat.le_of_eq hone
  · rw [List.count_eq_zero.2 fun hmem => hid (h.notified id hmem)]
    exact Nat.zero_le _

theorem count_eq_one (h : Inv l) (hs : l.started = true) (hl : l.loop = none) {id : Nat}
    (hid : id < l.subscribed) (hstays : id ∉ l.left) : l.notified.count id = 1 := by
  rcases h.reached id hid with hmem | hone
  · obtain ⟨i, hi⟩ := List.getElem?_of_mem hmem
    refine (h.settled i id hi ?_).2 hstays
    rw [passed, hl, hs]
    exact (List.getElem?_eq_some_iff.1 hi).1
  · exact hone

end Inv

namespace Step

variable {l l' : Ledger}

theorem left_subset (hs : Step l l') : l.left ⊆ l'.left := by
  cases hs with
  | leave => exact List.subset_append_left _ _
  | enter | atOnce | start | notify | pass | finish => exact List.Subset.refl _

/-- Who has left is not notified any more. -/
theorem count_of_left (hs : Step l l') (h : Inv l) {id : Nat} (hid : id ∈ l.left) :
    l'.notified.count id = l.notified.count id := by
  cases hs with
  | atOnce =>
      exact Inv.count_concat (Nat.ne_of_lt (h.entered id (h.left id hid)))
  | notify hl hi hstays => exact Inv.count_concat fun heq => hstays (heq ▸ hid)
  | enter | leave | start | pass | finish => rfl

end Step

end Ledger

end MyEngine.OneShot
