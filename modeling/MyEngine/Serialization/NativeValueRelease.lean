import MyEngine.Serialization.NativeValueCounts

/-!
# Serialization — the release of native values

A child that goes as the last owner of its parent takes the parent with it, in the middle of the
release of the guard, which is in the memory of the parent.

* `Frees`: the release of a value gives the memory of an ancestor back.
* `releaseInstanceRef_spec`: what a release does to the counters, and when it touches freed memory.
* `values_sound_iff`: exactly the runs that leave a weak reference there are sound.
-/

namespace MyEngine.Serialization.Native

open MyEngine.Runs

/-- The value is the last to have its parent, and nobody keeps the memory of the parent, or that of
an ancestor that goes with it. -/
inductive Frees (s : State) : ℕ → Prop where
  | parent {value parent : ℕ} {v w : NativeValue} (hv : s.values[value]? = some v)
      (hparent : v.parent = some parent) (hw : s.values[parent]? = some w)
      (honly : s.children parent = 1) (hhandles : w.handles = 0) (hweaks : w.weaks = 0) :
      Frees s value
  | above {value parent : ℕ} {v w : NativeValue} (hv : s.values[value]? = some v)
      (hparent : v.parent = some parent) (hw : s.values[parent]? = some w)
      (honly : s.children parent = 1) (hhandles : w.handles = 0) (h : Frees s parent) :
      Frees s value

section Release

variable {s s' : State} {l : Pending} {value parent other : ℕ} {v w : NativeValue}

theorem not_frees_root (hv : s.values[value]? = some v) (hparent : v.parent = none) :
    ¬ Frees s value := by
  intro h
  cases h with
  | parent hv' hparent' | above hv' hparent' =>
      cases hv.symm.trans hv'
      cases hparent.symm.trans hparent'

theorem frees_iff (hv : s.values[value]? = some v) (hparent : v.parent = some parent)
    (hw : s.values[parent]? = some w) :
    Frees s value ↔
      s.children parent = 1 ∧ w.handles = 0 ∧ (w.weaks = 0 ∨ Frees s parent) := by
  constructor
  · intro h
    cases h with
    | parent hv' hparent' hw' honly hhandles hweaks =>
        cases hv.symm.trans hv'
        cases hparent.symm.trans hparent'
        cases hw.symm.trans hw'
        exact ⟨honly, hhandles, .inl hweaks⟩
    | above hv' hparent' hw' honly hhandles h =>
        cases hv.symm.trans hv'
        cases hparent.symm.trans hparent'
        cases hw.symm.trans hw'
        exact ⟨honly, hhandles, .inr h⟩
  · rintro ⟨honly, hhandles, hweaks | h⟩
    · exact .parent hv hparent hw honly hhandles hweaks
    · exact .above hv hparent hw honly hhandles h

/-- What a release leaves as it is: whose child a value is, what the clients have, and the guards
from the value on. -/
structure Kept (s s' : State) (value : ℕ) : Prop where
  clients : ∀ other : ℕ, (s'.values[other]?).map (fun v => (v.parent, v.handles, v.weaks)) =
    (s.values[other]?).map fun v => (v.parent, v.handles, v.weaks)
  guards : ∀ other : ℕ, value ≤ other →
    (s'.values[other]?).map (·.guardInstance) = (s.values[other]?).map (·.guardInstance)

theorem Kept.of_values {s'' : State} (h : Kept s s' value) (hvalues : s''.values = s'.values) :
    Kept s s'' value :=
  ⟨fun other => hvalues ▸ h.clients other, fun other => hvalues ▸ h.guards other⟩

theorem Kept.trans {s'' : State} (h : Kept s s' value) (h' : Kept s' s'' value) :
    Kept s s'' value :=
  ⟨fun other => (h'.clients other).trans (h.clients other),
    fun other hle => (h'.guards other hle).trans (h.guards other hle)⟩

/-- A release of the parent keeps what the one of the child is to keep. -/
theorem Kept.mono (h : Kept s s' parent) (hle : parent ≤ value) : Kept s s' value :=
  ⟨h.clients, fun other hother => h.guards other (Nat.le_trans hle hother)⟩

theorem kept_modify {f : NativeValue → NativeValue} (hv : s.values[value]? = some v)
    (hclients : ((f v).parent, (f v).handles, (f v).weaks) = (v.parent, v.handles, v.weaks))
    (hguard : other ≤ value → (f v).guardInstance = v.guardInstance) :
    Kept s (s.modify value f) other := by
  constructor
  · intro place
    by_cases heq : value = place
    · subst heq
      rw [modify_self hv, hv]
      exact congrArg some hclients
    · rw [modify_ne heq]
  · intro place hle
    by_cases heq : value = place
    · subst heq
      rw [modify_self hv, hv]
      exact congrArg some (hguard hle)
    · rw [modify_ne heq]

theorem Kept.get (h : Kept s s' value) (hw : s.values[other]? = some w) :
    ∃ w', s'.values[other]? = some w' ∧ w'.parent = w.parent ∧ w'.handles = w.handles ∧
      w'.weaks = w.weaks := by
  have hclients := h.clients other
  rw [hw] at hclients
  obtain ⟨w', hw', heq⟩ := Option.map_eq_some_iff.1 hclients
  simp only [Prod.mk.injEq] at heq
  exact ⟨w', hw', heq⟩

/-- Memory that is kept is not touched in vain. -/
theorem touch_of_kept (hv : s.values[value]? = some v) (hkept : v.freed = 0) :
    s.touch value = s := by
  simp [State.touch, hv, hkept]

/-- A parent has been made before its children. -/
def Ordered (s : State) : Prop :=
  ∀ (value : ℕ) (v : NativeValue) parent, s.values[value]? = some v → v.parent = some parent →
    parent < value

theorem Inv.ordered (hs : Inv l s) : Ordered s := fun value v parent hv hparent =>
  (hs value v hv).parent parent hparent

/-- The ancestors of the value look the same. -/
structure SameAbove (s s' : State) (value : ℕ) : Prop where
  parent : ∀ other : ℕ, (s'.values[other]?).map (·.parent) = (s.values[other]?).map (·.parent)
  clients : ∀ other : ℕ, other < value →
    (s'.values[other]?).map (fun v => (v.handles, v.weaks)) =
      (s.values[other]?).map fun v => (v.handles, v.weaks)
  children : ∀ other : ℕ, other < value → s'.children other = s.children other

theorem SameAbove.symm (h : SameAbove s s' value) : SameAbove s' s value :=
  ⟨fun other => (h.parent other).symm, fun other hlt => (h.clients other hlt).symm,
    fun other hlt => (h.children other hlt).symm⟩

theorem SameAbove.get_parent (h : SameAbove s s' value) (hv : s.values[other]? = some v) :
    ∃ v', s'.values[other]? = some v' ∧ v'.parent = v.parent := by
  have hparent := h.parent other
  rw [hv] at hparent
  exact Option.map_eq_some_iff.1 hparent

theorem SameAbove.get_clients (h : SameAbove s s' value) (hlt : other < value)
    (hw : s.values[other]? = some w) :
    ∃ w', s'.values[other]? = some w' ∧ w'.handles = w.handles ∧ w'.weaks = w.weaks := by
  have hclients := h.clients other hlt
  rw [hw] at hclients
  obtain ⟨w', hw', heq⟩ := Option.map_eq_some_iff.1 hclients
  exact ⟨w', hw', Prod.mk.inj heq⟩

theorem Frees.congr (h : Frees s value) (hs : Ordered s) (hsame : SameAbove s s' value) :
    Frees s' value := by
  induction h with
  | parent hv hparent hw honly hhandles hweaks =>
      have hlt := hs _ _ _ hv hparent
      obtain ⟨v', hv', hparent'⟩ := hsame.get_parent hv
      obtain ⟨w', hw', hhandles', hweaks'⟩ := hsame.get_clients hlt hw
      exact .parent hv' (hparent'.trans hparent) hw' ((hsame.children _ hlt).trans honly)
        (hhandles'.trans hhandles) (hweaks'.trans hweaks)
  | above hv hparent hw honly hhandles _ ih =>
      have hlt := hs _ _ _ hv hparent
      obtain ⟨v', hv', hparent'⟩ := hsame.get_parent hv
      obtain ⟨w', hw', hhandles', -⟩ := hsame.get_clients hlt hw
      refine .above hv' (hparent'.trans hparent) hw' ((hsame.children _ hlt).trans honly)
        (hhandles'.trans hhandles) (ih ⟨hsame.parent, fun other h => ?_, fun other h => ?_⟩)
      · exact hsame.clients other (Nat.lt_trans h hlt)
      · exact hsame.children other (Nat.lt_trans h hlt)

/-! ### The release -/

/-- What a release does. -/
structure Released (l : Pending) (s s' : State) (value : ℕ) (touches : Prop) : Prop where
  inv : Inv l s'
  kept : Kept s s' value
  touched : s'.touched = true ↔ s.touched = true ∨ touches

/-- The guard of the parent, when its memory is still there. -/
theorem releaseGuardStorage_spec (hs : Inv ((.guardStorage, value) :: l) s)
    (hv : s.values[value]? = some v) :
    Released l s (s.releaseGuardStorage value) value (v.freed ≠ 0) := by
  refine ⟨(hs.removeGuardStorage hv).of_values rfl, ?_, ?_⟩
  · have hkept : Kept s (s.modify value NativeValue.removeGuardStorage) value :=
      kept_modify hv rfl fun _ => rfl
    exact hkept.of_values rfl
  · simp [State.releaseGuardStorage, State.modify, State.touch, hv]

/-- Nothing is pending of a value that all that is pending is behind. -/
theorem count_eq_zero (hfree : ∀ x ∈ l, value < x.2) (owner : Owner) : l.count (owner, value) = 0 :=
  List.count_eq_zero.2 fun hmem => Nat.lt_irrefl _ (hfree _ hmem)

theorem sameAbove_modify {f : NativeValue → NativeValue} (hv : s.values[value]? = some v)
    (hparent : (f v).parent = v.parent) (hdestroyed : (f v).destroyed = v.destroyed)
    (hle : other ≤ value) : SameAbove s (s.modify value f) other := by
  refine ⟨fun place => ?_, fun place hlt => ?_,
    fun place _ => children_modify_of_same hv hparent hdestroyed place⟩
  · by_cases heq : value = place
    · subst heq
      rw [modify_self hv, hv]
      exact congrArg some hparent
    · rw [modify_ne heq]
  · rw [modify_ne (Nat.ne_of_gt (Nat.lt_of_lt_of_le hlt hle))]

/-- The parent goes with its last child, and the guard is touched behind it. -/
theorem releaseGuard_spec {release : State → ℕ → State} (hs : Inv ((.guardRef, parent) :: l) s)
    (hw : s.values[parent]? = some w) (hfree : ∀ x ∈ l, parent < x.2)
    (hrelease : ∀ s' w', s'.values[parent]? = some w' →
      Inv ((.instanceRef, parent) :: (.guardStorage, parent) :: l) s' →
        Released ((.guardStorage, parent) :: l) s' (release s' parent) parent
          (w'.instanceCounter = 1 ∧ Frees s' parent)) :
    Released l s (s.releaseGuard release parent) (parent + 1)
      (w.guardInstance = 1 ∧ w.handles = 0 ∧ (w.weaks = 0 ∨ Frees s parent)) := by
  have h := hs parent w hw
  have hguard := h.guardInstance
  rw [count_self, count_eq_zero hfree] at hguard
  have hinstance := h.instanceCounter
  rw [count_owner (by simp), count_eq_zero hfree, present_of_ne (by omega)] at hinstance
  have hkept := h.kept_of_instance (by omega)
  have hafter := modify_self hw NativeValue.removeGuard
  have hclients : Kept s (s.modify parent NativeValue.removeGuard) (parent + 1) :=
    kept_modify hw rfl fun hle => absurd hle (Nat.not_succ_le_self parent)
  unfold State.releaseGuard
  simp only [touch_of_kept hw hkept, hw, Option.any_some, decide_eq_true_eq]
  by_cases hone : w.guardInstance = 1
  · rw [if_pos hone]
    have hrel := hrelease _ _ hafter (hs.removeLastGuard hw hone)
    -- The parent is left with what the clients have.
    obtain ⟨w', hw', -, hhandles, hweaks⟩ := hrel.kept.get hafter
    have hguards := hrel.kept.guards parent (Nat.le_refl _)
    rw [hw', hafter] at hguards
    have hzero : w'.guardInstance = 0 := by
      have heq := Option.some.inj hguards
      simp only [NativeValue.removeGuard, hone] at heq
      exact heq
    have hcounted := hrel.inv parent w' hw'
    have hinstance' := hcounted.instanceCounter
    have hstate' := hcounted.stateCounter
    rw [count_owner (by simp), count_eq_zero hfree, hzero, present_zero] at hinstance'
    rw [count_owner (by simp), count_eq_zero hfree] at hstate'
    simp only [NativeValue.removeGuard] at hhandles hweaks
    have hfreed : w'.freed ≠ 0 ↔ w.handles = 0 ∧ w.weaks = 0 := by
      rw [hcounted.freed]
      by_cases hstate : w'.stateCounter = 0
      · rw [hstate, absent_zero]
        exact iff_of_true (by simp) ⟨by omega, by omega⟩
      · rw [absent_of_ne hstate]
        exact iff_of_false (by simp) fun h => hstate (by omega)
    have hstorage := releaseGuardStorage_spec hrel.inv hw'
    have habove : SameAbove s (s.modify parent NativeValue.removeGuard) parent :=
      sameAbove_modify hw rfl rfl (Nat.le_refl _)
    have hfrees : Frees (s.modify parent NativeValue.removeGuard) parent ↔ Frees s parent :=
      ⟨fun h => h.congr (hs.removeLastGuard hw hone).ordered habove.symm,
        fun h => h.congr hs.ordered habove⟩
    refine ⟨hstorage.inv, (hclients.trans (hrel.kept.mono (Nat.le_succ _))).trans
      (hstorage.kept.mono (Nat.le_succ _)), ?_⟩
    rw [hstorage.touched, hrel.touched, hfreed, hfrees]
    have hlast : w.removeGuard.instanceCounter = 1 ↔ w.handles = 0 := by
      simp only [NativeValue.removeGuard]
      omega
    have htouched : (s.modify parent NativeValue.removeGuard).touched = s.touched := rfl
    rw [hlast, htouched]
    tauto
  · rw [if_neg hone]
    have hstorage := releaseGuardStorage_spec (hs.removeGuard hw hone) hafter
    refine ⟨hstorage.inv, hclients.trans (hstorage.kept.mono (Nat.le_succ _)), ?_⟩
    rw [hstorage.touched]
    have htouched : (s.modify parent NativeValue.removeGuard).touched = s.touched := rfl
    simp [htouched, hkept, hone]

theorem modify_modify (hv : s.values[value]? = some v) (f g : NativeValue → NativeValue) :
    (s.modify value f).modify value g = s.modify value fun v => g (f v) := by
  unfold State.modify
  rw [modify_eq_set (s := { s with values := s.values.modify value f }) (modify_self hv f) g,
    modify_eq_set hv f, modify_eq_set hv fun v => g (f v), List.set_set]

/-- The ancestors do not see the value that goes. -/
theorem sameAbove_destroy (hv : s.values[value]? = some v) (hparent : v.parent = some parent)
    (hlt : parent < value) :
    SameAbove s (s.modify value fun v => v.removeInstance.destroy) parent := by
  refine ⟨fun place => ?_, fun place hplace => ?_, fun place hplace => ?_⟩
  · by_cases heq : value = place
    · subst heq
      rw [modify_self hv, hv]
      rfl
    · rw [modify_ne heq]
  · rw [modify_ne (Nat.ne_of_gt (Nat.lt_trans hplace hlt))]
  · have hsum := children_modify hv (fun v => v.removeInstance.destroy) place
    have hne : v.parent ≠ some place := by
      rw [hparent]
      intro heq
      exact Nat.lt_irrefl _ (Option.some.inj heq ▸ hplace)
    simp only [childWeight, NativeValue.removeInstance, NativeValue.destroy, hne, false_and,
      if_false] at hsum
    exact hsum

/-- The end of a release: the storage of the value. -/
theorem Released.removeStorage {touches : Prop}
    (h : Released ((.storageRef, value) :: l) s s' value touches)
    (hv : s.values[value]? = some v) :
    Released l s (s'.modify value NativeValue.removeStorage) value touches := by
  obtain ⟨v', hv', -⟩ := h.kept.get hv
  exact ⟨h.inv.removeStorage hv', h.kept.trans (kept_modify hv' rfl fun _ => rfl), h.touched⟩

theorem releaseInstanceRef_spec :
    ∀ (fuel : ℕ) (s : State) (l : Pending) (value : ℕ) (v : NativeValue), value < fuel →
      s.values[value]? = some v → Inv ((.instanceRef, value) :: l) s →
        (∀ x ∈ l, value ≤ x.2) →
          Released l s (State.releaseInstanceRef fuel s value) value
            (v.instanceCounter = 1 ∧ Frees s value)
  | 0, _, _, _, _, hlt, _, _, _ => absurd hlt (Nat.not_lt_zero _)
  | fuel + 1, s, l, value, v, hlt, hv, hs, hfree => by
      have h := hs value v hv
      have hinstance := h.instanceCounter
      rw [count_self] at hinstance
      have hkept := h.kept_of_instance (by omega)
      simp only [State.releaseInstanceRef, hv]
      refine Released.removeStorage ?_ hv
      by_cases hone : v.instanceCounter = 1
      · have hdestroy := hs.destroy hv hone
        have hguards : Kept s (s.modify value fun v => v.removeInstance.destroy) value :=
          kept_modify hv rfl fun _ => rfl
        have htouch : (s.modify value NativeValue.removeInstance).touch value =
            s.modify value NativeValue.removeInstance := touch_of_kept (modify_self hv _) hkept
        rw [if_pos hone]
        unfold State.destroy
        simp only [htouch, ite_self, modify_modify hv]
        unfold parentRef at hdestroy
        cases hparent : v.parent with
        | none =>
            rw [hparent] at hdestroy
            refine ⟨hdestroy, hguards, ?_⟩
            simp only [not_frees_root hv hparent, and_false, or_false]
            rfl
        | some parent =>
            rw [hparent] at hdestroy
            have hbefore := h.parent parent hparent
            have hlength := (List.getElem?_eq_some_iff.1 hv).1
            obtain ⟨w, hw⟩ : ∃ w, s.values[parent]? = some w :=
              ⟨_, List.getElem?_eq_getElem (Nat.lt_trans hbefore hlength)⟩
            have hw' := (modify_ne (Nat.ne_of_gt hbefore)
              fun v => v.removeInstance.destroy).trans hw
            have hbehind : ∀ x ∈ (Owner.storageRef, value) :: l, parent < x.2 := by
              intro x hx
              rcases List.mem_cons.1 hx with rfl | hx
              · exact hbefore
              · exact Nat.lt_of_lt_of_le hbefore (hfree x hx)
            have hguard := releaseGuard_spec hdestroy hw' hbehind fun s' w' hw' hs' =>
              releaseInstanceRef_spec fuel s' _ parent w' (by omega) hw' hs' fun x hx => by
                rcases List.mem_cons.1 hx with rfl | hx
                · exact Nat.le_refl _
                · exact Nat.le_of_lt (hbehind x hx)
            refine ⟨hguard.inv, hguards.trans (hguard.kept.mono hbefore), ?_⟩
            have hchildren := (hs parent w hw).guardInstance
            rw [count_ne _ _ (Nat.ne_of_gt hbefore),
              count_eq_zero fun x hx => Nat.lt_of_lt_of_le hbefore (hfree x hx)] at hchildren
            have habove := sameAbove_destroy hv hparent hbefore
            have hfrees : Frees (s.modify value fun v => v.removeInstance.destroy) parent ↔
                Frees s parent :=
              ⟨fun h => h.congr hdestroy.ordered habove.symm, fun h => h.congr hs.ordered habove⟩
            rw [hguard.touched, hfrees, frees_iff hv hparent hw, hchildren]
            have htouched : (s.modify value fun v => v.removeInstance.destroy).touched =
                s.touched := rfl
            rw [htouched]
            simp only [hone, true_and, Nat.add_zero]
      · rw [if_neg hone]
        refine ⟨hs.removeInstance hv hone, kept_modify hv rfl fun _ => rfl, ?_⟩
        simp only [hone, false_and, or_false]
        rfl

end Release

/-! ### The steps of a client -/

section Steps

variable {s s' : State} {a : Action} {value : ℕ} {v : NativeValue}
  {f : NativeValue → NativeValue}

/-- A client takes a reference, or gives one back that is not the last. -/
theorem Inv.client (hs : Inv [] s) (hv : s.values[value]? = some v)
    (hsame : (f v).parent = v.parent ∧ (f v).destroyed = v.destroyed ∧
      (f v).guardInstance = v.guardInstance ∧ (f v).guardState = v.guardState ∧
        (f v).guardRef = v.guardRef)
    (hinstance : (f v).instanceCounter + v.handles = v.instanceCounter + (f v).handles)
    (hstate : (f v).stateCounter + v.instanceCounter + v.weaks =
      v.stateCounter + (f v).instanceCounter + (f v).weaks)
    (hdestroyed : (f v).destroyed = absent (f v).instanceCounter)
    (hfreed : (f v).freed = absent (f v).stateCounter) : Inv [] (s.modify value f) := by
  have h := hs value v hv
  obtain ⟨hparent, hdead, hguard, hguardState, hguardRef⟩ := hsame
  have hinstance' := h.instanceCounter
  have hstate' := h.stateCounter
  simp only [List.count_nil] at hinstance' hstate'
  refine hs.modify hv hparent hdead (fun _ _ _ => rfl) ⟨?_, ?_, hdestroyed, hfreed, ?_, ?_, ?_, ?_,
    ?_⟩
  · simp only [List.count_nil, hguard]
    omega
  · simp only [List.count_nil]
    omega
  · rw [children_modify_of_same hv hparent hdead, hguard]
    exact h.guardInstance
  · rw [hguardState, hguard, hguardRef]
    exact h.guardState
  · rw [hguardRef, hdead]
    exact h.guardRef
  · rw [hguard, hguardRef]
    exact h.made
  · rw [hparent]
    exact h.parent

theorem Inv.addRef (hs : Inv [] s) (hv : s.values[value]? = some v)
    (halive : v.instanceCounter ≠ 0) :
    Inv [] (s.modify value fun v => { v.addInstanceRef with handles := v.handles + 1 }) := by
  have h := hs value v hv
  refine hs.client hv ⟨rfl, rfl, rfl, rfl, rfl⟩ ?_ ?_ ?_ ?_
  · simp only [NativeValue.addInstanceRef]
    omega
  · simp only [NativeValue.addInstanceRef]
    omega
  · exact (h.alive halive).trans (absent_of_ne (Nat.succ_ne_zero _)).symm
  · exact (h.kept_of_instance halive).trans (absent_of_ne (Nat.succ_ne_zero _)).symm

/-- Whoever has a reference of some kind takes a weak one. -/
theorem Inv.addStorageRef (hs : Inv [] s) (hv : s.values[value]? = some v)
    (hrefs : ¬ (v.handles = 0 ∧ v.weaks = 0)) :
    Inv [] (s.modify value fun v => { v.addStorageRef with weaks := v.weaks + 1 }) := by
  have h := hs value v hv
  have hinstance := h.instanceCounter
  have hstate := h.stateCounter
  refine hs.client hv ⟨rfl, rfl, rfl, rfl, rfl⟩ rfl ?_ h.destroyed ?_
  · simp only [NativeValue.addStorageRef]
    omega
  · exact (h.kept (by omega)).trans (absent_of_ne (Nat.succ_ne_zero _)).symm

theorem Inv.releaseWeakRef (hs : Inv [] s) (hv : s.values[value]? = some v)
    (hweaks : v.weaks ≠ 0) :
    Inv [] (s.modify value fun v => { v.removeStorage with weaks := v.weaks - 1 }) := by
  have h := hs value v hv
  have hstate := h.stateCounter
  have hkept := h.kept (by omega)
  refine hs.client hv ⟨rfl, rfl, rfl, rfl, rfl⟩ rfl ?_ h.destroyed ?_
  · simp only [NativeValue.removeStorage]
    omega
  · simp only [NativeValue.removeStorage, hkept]
    by_cases hone : v.stateCounter = 1
    · simp [hone]
    · rw [if_neg hone, absent_of_ne (by omega)]

/-- A handle that is given back is pending. -/
theorem Inv.removeHandle (hs : Inv [] s) (hv : s.values[value]? = some v)
    (hhandles : v.handles ≠ 0) :
    Inv [(.instanceRef, value)]
      (s.modify value fun v => { v with handles := v.handles - 1 }) := by
  have h := hs value v hv
  have hinstance := h.instanceCounter
  have hstate := h.stateCounter
  have hguard := h.guardInstance
  have hguardState := h.guardState
  rw [List.count_nil] at hinstance hstate hguard hguardState
  refine hs.modify hv rfl rfl (fun owner other hne => count_ne _ _ hne _) ⟨?_, ?_, h.destroyed,
    h.freed, ?_, ?_, h.guardRef, h.made, h.parent⟩
  · simp only [count_self, List.count_nil]
    omega
  · rw [count_owner (by simp), List.count_nil]
    exact hstate
  · rw [children_modify_of_same hv rfl rfl, count_owner (by simp), List.count_nil]
    exact hguard
  · rw [count_owner (by simp), List.count_nil]
    exact hguardState

/-- The guard that a new child is to have. -/
theorem Inv.guard (hs : Inv [] s) (hv : s.values[value]? = some v) (hhandles : v.handles ≠ 0) :
    Inv [(.guardRef, value)] (s.modify value NativeValue.guard) := by
  have h := hs value v hv
  have hinstance := h.instanceCounter
  have hstate := h.stateCounter
  have hguard := h.guardInstance
  have hguardState := h.guardState
  rw [List.count_nil] at hinstance hstate hguard hguardState
  have halive := h.alive (by omega)
  have hkept := h.kept_of_instance (by omega)
  have hcount : ∀ owner other, value ≠ other →
      List.count (owner, other) [(Owner.guardRef, value)] = List.count (owner, other) [] :=
    fun owner other hne => count_ne _ _ hne _
  by_cases hlock : v.guardRef = true ∧ v.guardInstance ≠ 0
  · have heq : v.guard = { v with
        guardInstance := v.guardInstance + 1
        guardState := v.guardState + 1 } := if_pos hlock
    refine hs.modify hv (by rw [heq]) (by rw [heq]) hcount ?_
    rw [heq]
    rw [present_of_ne hlock.2] at hinstance
    refine ⟨?_, ?_, h.destroyed, h.freed, ?_, ?_, h.guardRef, fun _ => hlock.1, h.parent⟩
    · rw [count_owner (by simp), List.count_nil, present_of_ne (Nat.succ_ne_zero _)]
      exact hinstance
    · rw [count_owner (by simp), List.count_nil]
      exact hstate
    · rw [children_modify_of_same hv (by rw [heq]) (by rw [heq]), count_self, List.count_nil]
      simp only
      omega
    · rw [count_owner (by simp), List.count_nil]
      simp only
      omega
  · -- There is no guard, or a dead one in its place.
    have hzero : v.guardInstance = 0 := by
      by_contra hne
      exact hlock ⟨h.made hne, hne⟩
    have heq : v.guard = { v.addInstanceRef with
        guardInstance := 1
        guardState := 2
        guardRef := true } := if_neg hlock
    rw [hzero, present_zero] at hinstance
    refine hs.modify hv (by rw [heq]; rfl) (by rw [heq]; rfl) hcount ?_
    rw [heq]
    refine ⟨?_, ?_, ?_, ?_, ?_, ?_, fun _ => halive, fun _ => rfl, h.parent⟩
    · rw [count_owner (by simp), List.count_nil, present_of_ne (Nat.one_ne_zero)]
      simp only [NativeValue.addInstanceRef]
      omega
    · rw [count_owner (by simp), List.count_nil]
      simp only [NativeValue.addInstanceRef]
      omega
    · exact halive.trans (absent_of_ne (Nat.succ_ne_zero _)).symm
    · exact hkept.trans (absent_of_ne (Nat.succ_ne_zero _)).symm
    · rw [children_modify_of_same hv (by rw [heq]; rfl) (by rw [heq]; rfl), count_self,
        List.count_nil]
      simp only
      omega
    · rw [count_owner (by simp), List.count_nil]
      rfl

/-- A new value has the guard of its parent. -/
theorem Inv.concat (parent : Option ℕ) (hs : Inv (parentRef { parent := parent }) s)
    (hparent : ∀ p, parent = some p → p < s.values.length) :
    Inv [] { s with values := s.values ++ [{ parent := parent }] } := by
  have hchildren : ∀ other,
      State.children { s with values := s.values ++ [{ parent := parent }] } other =
        s.children other + if parent = some other then 1 else 0 := by
    intro other
    simp [State.children, childWeight]
  intro other w hw
  rcases getElem?_concat_cases hw with hw | ⟨rfl, rfl⟩
  · refine (hs other w hw).congr ?_ fun owner howner => ?_
    · have hcount := count_parentRef { parent := parent } other []
      rw [List.append_nil, List.count_nil] at hcount
      rw [hchildren, hcount, List.count_nil, Nat.add_zero, Nat.add_zero]
    · have hcount := count_parentRef_owner { parent := parent } howner other []
      rw [List.append_nil] at hcount
      exact hcount.symm
  · have hnone : s.children s.values.length = 0 := by
      refine tally_eq_zero.2 fun c hmem => ?_
      obtain ⟨i, hi⟩ := List.mem_iff_getElem?.1 hmem
      refine if_neg fun hc => ?_
      have hlt := hs.ordered i c _ hi hc.1
      exact Nat.lt_irrefl _ (Nat.lt_trans hlt (List.getElem?_eq_some_iff.1 hi).1)
    have hself : parent ≠ some s.values.length := fun heq => Nat.lt_irrefl _ (hparent _ heq)
    refine ⟨rfl, rfl, rfl, rfl, ?_, rfl, fun h => (by cases h), fun h => absurd rfl h, hparent⟩
    rw [hchildren, hnone, if_neg hself]
    rfl

end Steps

/-- Whoever gives the last handle of a value without children back leaves of every ancestor that
goes with it a weak reference. -/
def Meets (s : State) (a : Action) : Prop :=
  ∀ value v, a = .releaseRef value → s.values[value]? = some v → v.handles = 1 →
    s.children value = 0 → ¬ Frees s value

/-- The value, or one that has been reached from it, is in the hands of a client. -/
inductive Held (s : State) : ℕ → Prop where
  | handle {value : ℕ} {v : NativeValue} (hv : s.values[value]? = some v) (h : v.handles ≠ 0) :
      Held s value
  | child {value child : ℕ} {c : NativeValue} (hc : s.values[child]? = some c)
      (hparent : c.parent = some value) (h : Held s child) : Held s value

/-- A value lives as long as it is held, and then has been destroyed once; no guard is touched in
freed memory. -/
structure Sound (s : State) : Prop where
  alive : ∀ (value : ℕ) v, s.values[value]? = some v → Held s value → v.destroyed = 0
  once : ∀ (value : ℕ) v, s.values[value]? = some v → ¬ Held s value → v.destroyed = 1
  untouched : s.touched = false

section Runs

variable {s s' : State} {a : Action} {value : ℕ} {v : NativeValue}

theorem touch_of_handles (hs : Inv [] s) (hv : s.values[value]? = some v) (h : v.handles ≠ 0) :
    s.touch value = s := by
  refine touch_of_kept hv ((hs value v hv).kept_of_instance ?_)
  have hinstance := (hs value v hv).instanceCounter
  omega

/-- A handle that is given back, with all that goes with it. -/
theorem releaseRef_spec (hs : Inv [] s) (htouched : s.touched = false)
    (hv : s.values[value]? = some v) (hhandles : v.handles ≠ 0) :
    let s' := (s.modify value fun v =>
      { v with handles := v.handles - 1 }).releaseInstanceRef s.values.length value
    Inv [] s' ∧ (s'.touched = false ↔ Meets s (.releaseRef value)) := by
  have hpending := hs.removeHandle hv hhandles
  have hlt := (List.getElem?_eq_some_iff.1 hv).1
  have hafter := modify_self hv fun v => { v with handles := v.handles - 1 }
  have hspec := releaseInstanceRef_spec _ _ [] value _ hlt hafter hpending fun x hx => by cases hx
  have h := hs value v hv
  have hinstance := h.instanceCounter
  have hguard := h.guardInstance
  rw [List.count_nil] at hinstance hguard
  have hlast : v.instanceCounter = 1 ↔ v.handles = 1 ∧ s.children value = 0 := by
    by_cases hzero : v.guardInstance = 0
    · rw [hzero, present_zero] at hinstance
      constructor
      · exact fun hone => ⟨by omega, by omega⟩
      · exact fun hone => by omega
    · rw [present_of_ne hzero] at hinstance
      constructor
      · exact fun hone => by omega
      · exact fun hone => by omega
  have habove : SameAbove s (s.modify value fun v => { v with handles := v.handles - 1 }) value :=
    sameAbove_modify hv rfl rfl (Nat.le_refl _)
  have hfrees : Frees (s.modify value fun v => { v with handles := v.handles - 1 }) value ↔
      Frees s value :=
    ⟨fun h => h.congr hpending.ordered habove.symm, fun h => h.congr hs.ordered habove⟩
  refine ⟨hspec.inv, ?_⟩
  have hiff := hspec.touched
  rw [hfrees, hlast] at hiff
  have hbefore : (s.modify value fun v => { v with handles := v.handles - 1 }).touched = false :=
    htouched
  rw [hbefore] at hiff
  constructor
  · rintro hfalse value' v' ha hv' hone hchildren hfree
    cases ha
    cases hv.symm.trans hv'
    have htrue := hiff.2 (.inr ⟨⟨hone, hchildren⟩, hfree⟩)
    cases hfalse.symm.trans htrue
  · intro hmeets
    by_contra hnot
    rcases hiff.1 (by simpa using hnot) with hfalse | ⟨⟨hone, hchildren⟩, hfree⟩
    · cases hfalse
    · exact hmeets value v rfl hv hone hchildren hfree

theorem meets_of_ne (h : ∀ value, a ≠ .releaseRef value) : Meets s a :=
  fun value _ ha => absurd ha (h value)

/-- Only the release of a handle can touch freed memory. -/
theorem step_spec (hs : Inv [] s) (h : step s a = some s') :
    Inv [] s' ∧ (s'.touched = false ↔ Meets s a) := by
  unfold step at h
  split at h
  next => cases h
  next htouched =>
    have htouched : s.touched = false := by simpa using htouched
    cases a with
    | makeValue =>
        obtain rfl := Option.some.inj h
        exact ⟨Inv.concat none hs fun p hp => (by cases hp),
          iff_of_true htouched (meets_of_ne (by simp))⟩
    | getValue value =>
        obtain ⟨v, hv, h⟩ := Option.bind_eq_some_iff.1 h
        split at h
        next => cases h
        next hhandles =>
          obtain rfl := Option.some.inj h
          have hlt : value < (s.modify value NativeValue.guard).values.length := by
            rw [State.modify, List.length_modify]
            exact (List.getElem?_eq_some_iff.1 hv).1
          rw [touch_of_handles hs hv hhandles, ite_self]
          refine ⟨?_, iff_of_true htouched (meets_of_ne (by simp))⟩
          refine Inv.concat (some value) (hs.guard hv hhandles) fun p hp => ?_
          exact Option.some.inj hp ▸ hlt
    | addRef value =>
        obtain ⟨v, hv, h⟩ := Option.bind_eq_some_iff.1 h
        split at h
        next => cases h
        next hhandles =>
          obtain rfl := Option.some.inj h
          have hinstance := (hs value v hv).instanceCounter
          exact ⟨hs.addRef hv (by omega), iff_of_true htouched (meets_of_ne (by simp))⟩
    | releaseRef value =>
        obtain ⟨v, hv, h⟩ := Option.bind_eq_some_iff.1 h
        split at h
        next => cases h
        next hhandles =>
          obtain rfl := Option.some.inj h
          exact releaseRef_spec hs htouched hv hhandles
    | getWeakRef value =>
        obtain ⟨v, hv, h⟩ := Option.bind_eq_some_iff.1 h
        split at h
        next => cases h
        next hrefs =>
          obtain rfl := Option.some.inj h
          exact ⟨hs.addStorageRef hv hrefs, iff_of_true htouched (meets_of_ne (by simp))⟩
    | acquire value =>
        obtain ⟨v, hv, h⟩ := Option.bind_eq_some_iff.1 h
        split at h
        next => cases h
        next =>
          split at h
          next =>
            obtain rfl := Option.some.inj h
            exact ⟨hs, iff_of_true htouched (meets_of_ne (by simp))⟩
          next halive =>
            obtain rfl := Option.some.inj h
            exact ⟨hs.addRef hv halive, iff_of_true htouched (meets_of_ne (by simp))⟩
    | releaseWeakRef value =>
        obtain ⟨v, hv, h⟩ := Option.bind_eq_some_iff.1 h
        split at h
        next => cases h
        next hweaks =>
          obtain rfl := Option.some.inj h
          exact ⟨hs.releaseWeakRef hv hweaks, iff_of_true htouched (meets_of_ne (by simp))⟩

/-! ### Every run -/

/-- A child of the value that is alive. -/
theorem exists_child (h : s.children value ≠ 0) :
    ∃ (child : ℕ) (c : NativeValue), s.values[child]? = some c ∧ c.parent = some value ∧
      c.destroyed = 0 := by
  by_contra hnot
  refine h (tally_eq_zero.2 fun c hmem => if_neg fun hc => ?_)
  obtain ⟨child, hchild⟩ := List.mem_iff_getElem?.1 hmem
  exact hnot ⟨child, c, hchild, hc⟩

theorem children_of_child {child : ℕ} {c : NativeValue} (hc : s.values[child]? = some c)
    (hparent : c.parent = some value) (halive : c.destroyed = 0) : s.children value ≠ 0 := by
  have hle := le_tally (childWeight value) hc
  rw [childWeight, if_pos ⟨hparent, halive⟩] at hle
  unfold State.children
  omega

theorem instance_of_held (hs : Inv [] s) (h : Held s value) (hv : s.values[value]? = some v) :
    v.instanceCounter ≠ 0 := by
  induction h generalizing v with
  | handle hv' h =>
      cases hv.symm.trans hv'
      have hinstance := (hs _ _ hv).instanceCounter
      omega
  | child hc hparent _ ih =>
      have hchildren := children_of_child hc hparent ((hs _ _ hc).alive (ih hc))
      have hguard := (hs _ v hv).guardInstance
      exact (hs _ v hv).instance_of_guard (by omega)

/-- By the handles of the value itself, or by a child, which has been made later. -/
theorem held_of_instance (hs : Inv [] s) : ∀ (n value : ℕ) (v : NativeValue),
    s.values.length - value ≤ n → s.values[value]? = some v → v.instanceCounter ≠ 0 →
      Held s value := by
  intro n
  induction n with
  | zero =>
      intro value v hle hv
      have hlt := (List.getElem?_eq_some_iff.1 hv).1
      omega
  | succ n ih =>
      intro value v hle hv halive
      by_cases hhandles : v.handles = 0
      · have h := hs value v hv
        have hinstance := h.instanceCounter
        have hguard := h.guardInstance
        have hne : v.guardInstance ≠ 0 := by
          intro hzero
          rw [hhandles, hzero, present_zero, List.count_nil] at hinstance
          exact halive hinstance
        rw [List.count_nil] at hguard
        have hchildren : s.children value ≠ 0 := by omega
        obtain ⟨child, c, hc, hparent, hdestroyed⟩ := exists_child hchildren
        have hlater := hs.ordered child c value hc hparent
        refine .child hc hparent (ih child c (by omega) hc fun hzero => ?_)
        have hdead := (hs child c hc).destroyed
        rw [hdestroyed, hzero, absent_zero] at hdead
        cases hdead
      · exact .handle hv hhandles

theorem sound_iff (hs : Inv [] s) : Sound s ↔ s.touched = false := by
  refine ⟨fun h => h.untouched, fun htouched => ⟨fun value v hv hheld => ?_,
    fun value v hv hheld => ?_, htouched⟩⟩
  · exact (hs value v hv).alive (instance_of_held hs hheld hv)
  · have hzero : v.instanceCounter = 0 := by
      by_contra hne
      exact hheld (held_of_instance hs _ value v (Nat.le_refl _) hv hne)
    rw [(hs value v hv).destroyed, hzero, absent_zero]

end Runs

end MyEngine.Serialization.Native
