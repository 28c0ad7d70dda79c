import MyEngine.Serialization.NativeValue

/-!
# Serialization — the counters of the native values

* `Pending`: a reference that is on its way out.
* `Counted`: what the counters of a value stand for, the pending references included.
* `Inv.removeInstance` and the like: what each part of a release does to what is pending.
-/

namespace MyEngine.Serialization.Native

/-- Which of the counters the reference is still to be taken from. -/
inductive Owner where
  | instanceRef
  | storageRef
  | guardRef
  | guardStorage
  deriving DecidableEq, Repr

abbrev Pending := List (Owner × ℕ)

/-- A child of the value that has not been destroyed. -/
def childWeight (value : ℕ) (c : NativeValue) : ℕ :=
  if c.parent = some value ∧ c.destroyed = 0 then 1 else 0

/-- How many children of the value there are. -/
def State.children (s : State) (value : ℕ) : ℕ := tally (childWeight value) s.values

/-- One where there are any. -/
def present (n : ℕ) : ℕ := if n = 0 then 0 else 1

/-- One where there are none. -/
def absent (n : ℕ) : ℕ := if n = 0 then 1 else 0

@[simp]
theorem present_zero : present 0 = 0 := rfl

@[simp]
theorem absent_zero : absent 0 = 1 := rfl

theorem present_of_ne {n : ℕ} (h : n ≠ 0) : present n = 1 := if_neg h

theorem absent_of_ne {n : ℕ} (h : n ≠ 0) : absent n = 0 := if_neg h

/-- The references of the clients, of the guard and of the children, and those on their way out. -/
structure Counted (s : State) (l : Pending) (value : ℕ) (v : NativeValue) : Prop where
  instanceCounter : v.instanceCounter =
    v.handles + present v.guardInstance + l.count (.instanceRef, value)
  stateCounter : v.stateCounter = v.instanceCounter + v.weaks + l.count (.storageRef, value)
  destroyed : v.destroyed = absent v.instanceCounter
  freed : v.freed = absent v.stateCounter
  guardInstance : v.guardInstance = s.children value + l.count (.guardRef, value)
  guardState : v.guardState = v.guardInstance + v.guardRef.toNat + l.count (.guardStorage, value)
  guardRef : v.guardRef = true → v.destroyed = 0
  made : v.guardInstance ≠ 0 → v.guardRef = true
  parent : ∀ parent, v.parent = some parent → parent < value

/-- Holds of every value. -/
def Inv (l : Pending) (s : State) : Prop :=
  ∀ (value : ℕ) v, s.values[value]? = some v → Counted s l value v

section Values

variable {s : State} {l l' : Pending} {value other : ℕ} {v w : NativeValue}
  {f : NativeValue → NativeValue}

/-! ### One value is replaced -/

theorem modify_eq_set (hv : s.values[value]? = some v) (f : NativeValue → NativeValue) :
    s.values.modify value f = s.values.set value (f v) := by
  ext1 i
  rw [List.getElem?_modify]
  by_cases hi : value = i
  · subst hi
    rw [getElem?_replaced hv, hv]
    simp
  · rw [List.getElem?_set_ne hi]
    simp [hi]

theorem modify_self (hv : s.values[value]? = some v) (f : NativeValue → NativeValue) :
    (s.modify value f).values[value]? = some (f v) := by
  rw [State.modify, modify_eq_set hv, getElem?_replaced hv]

theorem modify_ne (h : value ≠ other) (f : NativeValue → NativeValue) :
    (s.modify value f).values[other]? = s.values[other]? :=
  List.getElem?_modify_ne f s.values h

theorem modify_cases (hv : s.values[value]? = some v)
    (h : (s.modify value f).values[other]? = some w) :
    value = other ∧ f v = w ∨ value ≠ other ∧ s.values[other]? = some w := by
  rw [State.modify, modify_eq_set hv] at h
  exact getElem?_set_cases h

theorem children_modify (hv : s.values[value]? = some v) (f : NativeValue → NativeValue)
    (other : ℕ) :
    (s.modify value f).children other + childWeight other v =
      s.children other + childWeight other (f v) := by
  unfold State.children State.modify
  rw [modify_eq_set hv]
  exact tally_set _ hv _

/-- The children stay where the value neither comes nor goes. -/
theorem children_modify_of_same (hv : s.values[value]? = some v)
    (hparent : (f v).parent = v.parent) (hdestroyed : (f v).destroyed = v.destroyed)
    (other : ℕ) : (s.modify value f).children other = s.children other := by
  have hsum := children_modify hv f other
  have hweight : childWeight other (f v) = childWeight other v := by
    rw [childWeight, childWeight, hparent, hdestroyed]
  omega

/-- The counters of another value. -/
theorem Counted.congr {s' : State} (h : Counted s l value v)
    (hguard : s'.children value + l'.count (.guardRef, value) =
      s.children value + l.count (.guardRef, value))
    (hrest : ∀ owner, owner ≠ .guardRef → l'.count (owner, value) = l.count (owner, value)) :
    Counted s' l' value v := by
  obtain ⟨h₁, h₂, h₃, h₄, h₅, h₆, h₇, h₈, h₉⟩ := h
  refine ⟨?_, ?_, h₃, h₄, ?_, ?_, h₇, h₈, h₉⟩
  · rw [hrest _ (by simp)]
    exact h₁
  · rw [hrest _ (by simp)]
    exact h₂
  · rw [hguard]
    exact h₅
  · rw [hrest _ (by simp)]
    exact h₆

theorem count_ne (owner owner' : Owner) (h : value ≠ other) (l : Pending) :
    ((owner, value) :: l).count (owner', other) = l.count (owner', other) := by
  refine List.count_cons_of_ne fun heq => h ?_
  injection heq

theorem Inv.of_values {s' : State} (hs : Inv l s) (h : s'.values = s.values) : Inv l s' := by
  intro value v hv
  rw [h] at hv
  have hchildren : s'.children value = s.children value := by
    unfold State.children
    rw [h]
  exact (hs value v hv).congr (by rw [hchildren]) fun _ _ => rfl

/-- One value moves, with what is pending of it. -/
theorem Inv.modify (hs : Inv l s) (hv : s.values[value]? = some v)
    (hparent : (f v).parent = v.parent) (hdestroyed : (f v).destroyed = v.destroyed)
    (hcount : ∀ owner other, value ≠ other → l'.count (owner, other) = l.count (owner, other))
    (hself : Counted (s.modify value f) l' value (f v)) : Inv l' (s.modify value f) := by
  intro other w hw
  rcases modify_cases hv hw with ⟨rfl, rfl⟩ | ⟨hne, hw⟩
  · exact hself
  · refine (hs other w hw).congr ?_ fun owner _ => hcount owner other hne
    rw [children_modify_of_same hv hparent hdestroyed, hcount _ _ hne]

@[simp]
theorem count_self (owner : Owner) (l : Pending) :
    ((owner, value) :: l).count (owner, value) = l.count (owner, value) + 1 :=
  List.count_cons_self

theorem count_owner {owner owner' : Owner} (h : owner ≠ owner') (l : Pending) :
    ((owner, value) :: l).count (owner', value) = l.count (owner', value) := by
  refine List.count_cons_of_ne fun heq => h ?_
  injection heq

theorem Counted.alive (h : Counted s l value v) (hinstance : v.instanceCounter ≠ 0) :
    v.destroyed = 0 := by
  rw [h.destroyed, absent_of_ne hinstance]

theorem Counted.kept (h : Counted s l value v) (hstate : v.stateCounter ≠ 0) : v.freed = 0 := by
  rw [h.freed, absent_of_ne hstate]

/-- Who has an instance has memory. -/
theorem Counted.kept_of_instance (h : Counted s l value v) (hinstance : v.instanceCounter ≠ 0) :
    v.freed = 0 := by
  refine h.kept ?_
  have hstate := h.stateCounter
  omega

/-- The guard has the value. -/
theorem Counted.instance_of_guard (h : Counted s l value v) (hguard : v.guardInstance ≠ 0) :
    v.instanceCounter ≠ 0 := by
  have hinstance := h.instanceCounter
  rw [present_of_ne hguard] at hinstance
  omega

/-! ### The parts of a release -/

/-- One reference less of several. -/
theorem Inv.removeInstance (hs : Inv ((.instanceRef, value) :: l) s)
    (hv : s.values[value]? = some v) (hmore : v.instanceCounter ≠ 1) :
    Inv ((.storageRef, value) :: l) (s.modify value NativeValue.removeInstance) := by
  have h := hs value v hv
  have hinstance := h.instanceCounter
  have hstate := h.stateCounter
  have hguard := h.guardInstance
  have hguardState := h.guardState
  rw [count_self] at hinstance
  rw [count_owner (by simp)] at hstate hguard hguardState
  have hnot : v.instanceCounter - 1 ≠ 0 := by omega
  refine hs.modify hv rfl rfl (fun owner other h => ?_) ⟨?_, ?_, ?_, h.freed, ?_, ?_, h.guardRef,
    h.made, h.parent⟩
  · rw [count_ne _ _ h, count_ne _ _ h]
  · rw [count_owner (by simp)]
    simp only [NativeValue.removeInstance]
    omega
  · rw [count_self]
    simp only [NativeValue.removeInstance]
    omega
  · simp only [NativeValue.removeInstance, absent_of_ne hnot]
    exact h.alive (by omega)
  · rw [children_modify_of_same hv rfl rfl, count_owner (by simp)]
    exact hguard
  · rw [count_owner (by simp)]
    exact hguardState

/-- The last reference to the memory, or one of several. -/
theorem Inv.removeStorage (hs : Inv ((.storageRef, value) :: l) s)
    (hv : s.values[value]? = some v) :
    Inv l (s.modify value NativeValue.removeStorage) := by
  have h := hs value v hv
  have hinstance := h.instanceCounter
  have hstate := h.stateCounter
  have hguard := h.guardInstance
  have hguardState := h.guardState
  rw [count_self] at hstate
  rw [count_owner (by simp)] at hinstance hguard hguardState
  have hkept := h.kept (by omega)
  refine hs.modify hv rfl rfl (fun owner other h => (count_ne _ _ h l).symm) ⟨hinstance, ?_,
    h.destroyed, ?_, ?_, hguardState, h.guardRef, h.made, h.parent⟩
  · simp only [NativeValue.removeStorage]
    omega
  · simp only [NativeValue.removeStorage, hkept]
    by_cases hone : v.stateCounter = 1
    · simp [hone]
    · have hnot : v.stateCounter - 1 ≠ 0 := by omega
      rw [if_neg hone, absent_of_ne hnot]
  · rw [children_modify_of_same hv rfl rfl]
    exact hguard

/-- One child less of several. -/
theorem Inv.removeGuard (hs : Inv ((.guardRef, value) :: l) s) (hv : s.values[value]? = some v)
    (hmore : v.guardInstance ≠ 1) :
    Inv ((.guardStorage, value) :: l) (s.modify value NativeValue.removeGuard) := by
  have h := hs value v hv
  have hinstance := h.instanceCounter
  have hstate := h.stateCounter
  have hguard := h.guardInstance
  have hguardState := h.guardState
  rw [count_self] at hguard
  rw [count_owner (by simp)] at hinstance hstate hguardState
  have hbefore : v.guardInstance ≠ 0 := by omega
  have hafter : v.guardInstance - 1 ≠ 0 := by omega
  refine hs.modify hv rfl rfl (fun owner other h => ?_) ⟨?_, ?_, h.destroyed, h.freed, ?_, ?_,
    h.guardRef, fun _ => h.made hbefore, h.parent⟩
  · rw [count_ne _ _ h, count_ne _ _ h]
  · rw [count_owner (by simp)]
    simp only [NativeValue.removeGuard, present_of_ne hafter]
    rwa [present_of_ne hbefore] at hinstance
  · rw [count_owner (by simp)]
    exact hstate
  · rw [children_modify_of_same hv rfl rfl, count_owner (by simp)]
    simp only [NativeValue.removeGuard]
    omega
  · rw [count_self]
    simp only [NativeValue.removeGuard]
    omega

/-- The last child: the guard lets go of the value. -/
theorem Inv.removeLastGuard (hs : Inv ((.guardRef, value) :: l) s)
    (hv : s.values[value]? = some v) (hone : v.guardInstance = 1) :
    Inv ((.instanceRef, value) :: (.guardStorage, value) :: l)
      (s.modify value NativeValue.removeGuard) := by
  have h := hs value v hv
  have hinstance := h.instanceCounter
  have hstate := h.stateCounter
  have hguard := h.guardInstance
  have hguardState := h.guardState
  rw [count_self] at hguard
  rw [count_owner (by simp)] at hinstance hstate hguardState
  have hbefore : v.guardInstance ≠ 0 := by omega
  rw [present_of_ne hbefore] at hinstance
  refine hs.modify hv rfl rfl (fun owner other h => ?_) ⟨?_, ?_, h.destroyed, h.freed, ?_, ?_,
    h.guardRef, fun h' => ?_, h.parent⟩
  · rw [count_ne _ _ h, count_ne _ _ h, count_ne _ _ h]
  · rw [count_self, count_owner (by simp)]
    simp only [NativeValue.removeGuard, hone]
    simp
    omega
  · rw [count_owner (by simp), count_owner (by simp)]
    exact hstate
  · rw [children_modify_of_same hv rfl rfl, count_owner (by simp), count_owner (by simp)]
    simp only [NativeValue.removeGuard]
    omega
  · rw [count_owner (by simp), count_self]
    simp only [NativeValue.removeGuard]
    omega
  · simp [hone] at h'

theorem Inv.removeGuardStorage (hs : Inv ((.guardStorage, value) :: l) s)
    (hv : s.values[value]? = some v) :
    Inv l (s.modify value NativeValue.removeGuardStorage) := by
  have h := hs value v hv
  have hinstance := h.instanceCounter
  have hstate := h.stateCounter
  have hguard := h.guardInstance
  have hguardState := h.guardState
  rw [count_self] at hguardState
  rw [count_owner (by simp)] at hinstance hstate hguard
  refine hs.modify hv rfl rfl (fun owner other h => (count_ne _ _ h l).symm) ⟨hinstance, hstate,
    h.destroyed, h.freed, ?_, ?_, h.guardRef, h.made, h.parent⟩
  · rw [children_modify_of_same hv rfl rfl]
    exact hguard
  · simp only [NativeValue.removeGuardStorage]
    omega

/-- The guard of the parent that goes with the value. -/
def parentRef (v : NativeValue) : Pending :=
  match v.parent with
  | none        => []
  | some parent => [(.guardRef, parent)]

theorem count_parentRef (v : NativeValue) (other : ℕ) (l : Pending) :
    (parentRef v ++ l).count (.guardRef, other) =
      (if v.parent = some other then 1 else 0) + l.count (.guardRef, other) := by
  unfold parentRef
  split
  next hparent => simp [hparent]
  next parent hparent =>
    rw [hparent]
    by_cases heq : parent = other
    · subst heq
      simp [Nat.add_comm]
    · simp [heq]

theorem count_parentRef_owner (v : NativeValue) {owner : Owner} (h : owner ≠ .guardRef)
    (other : ℕ) (l : Pending) :
    (parentRef v ++ l).count (owner, other) = l.count (owner, other) := by
  unfold parentRef
  split
  next => rfl
  next => exact List.count_cons_of_ne fun heq => h (by injection heq with h₁; exact h₁.symm)

/-- The last reference: the value is destroyed, and lets go of the guard of its parent. -/
theorem Inv.destroy (hs : Inv ((.instanceRef, value) :: l) s) (hv : s.values[value]? = some v)
    (hone : v.instanceCounter = 1) :
    Inv (parentRef v ++ (.storageRef, value) :: l)
      (s.modify value fun v => v.removeInstance.destroy) := by
  have h := hs value v hv
  have hinstance := h.instanceCounter
  have hstate := h.stateCounter
  have hguard := h.guardInstance
  have hguardState := h.guardState
  rw [count_self] at hinstance
  rw [count_owner (by simp)] at hstate hguard hguardState
  have hzero : v.guardInstance = 0 := by
    by_contra hnot
    rw [present_of_ne hnot] at hinstance
    omega
  rw [hzero, present_zero] at hinstance
  have halive := h.alive (by omega)
  have hchildren := children_modify hv fun v => v.removeInstance.destroy
  have hweight : ∀ other, childWeight other v.removeInstance.destroy = 0 := by
    intro other
    simp [childWeight]
  have hself : v.parent ≠ some value := fun heq => Nat.lt_irrefl _ (h.parent value heq)
  have hold : ∀ other, childWeight other v = if v.parent = some other then 1 else 0 := by
    intro other
    simp [childWeight, halive]
  intro other w hw
  rcases modify_cases hv hw with ⟨rfl, rfl⟩ | ⟨hne, hw⟩
  · have hsame := hchildren value
    rw [hweight, hold, if_neg hself] at hsame
    refine ⟨?_, ?_, ?_, h.freed, ?_, ?_, fun h => (by cases h), fun h => absurd hzero h, h.parent⟩
    · rw [count_parentRef_owner _ (by simp), count_owner (by simp)]
      simp [hzero, hone]
      omega
    · rw [count_parentRef_owner _ (by simp), count_self]
      simp
      omega
    · simp [hone, halive]
    · rw [count_parentRef, if_neg hself, count_owner (by simp), Nat.zero_add, ← Nat.add_zero
        (State.children _ value), hsame]
      exact hguard
    · rw [count_parentRef_owner _ (by simp), count_owner (by simp)]
      cases hr : v.guardRef <;> simp [hr] at hguardState ⊢ <;> omega
  · refine (hs other w hw).congr ?_ fun owner howner => ?_
    · have hsum := hchildren other
      rw [hweight, hold] at hsum
      rw [count_parentRef, count_ne _ _ hne, count_ne _ _ hne]
      omega
    · rw [count_parentRef_owner _ howner, count_ne _ _ hne, count_ne _ _ hne]

end Values

end MyEngine.Serialization.Native
