import Mathlib.Order.Nat
import MyEngine.Rtti.SharedState

/-!
# Rtti — ReferenceCounts

What the counters of an object are worth in every state its holders' calls can reach, as long as
no step meets one of the two defects `Clear` excludes: each counter equals the references it
stands for, the destructor runs once, after the last strong reference, and the storage is freed
once, after the last reference of either kind.

`Inv` carries the induction; `step_inv` is its step.  A compare-exchange whose operand was
evaluated at another value of the counter breaks the first of these facts: `skewed` is such a run.
-/

namespace MyEngine.Rtti
open Runs

/-- What holds between the steps of the calls. -/
structure Inv (s : State) : Prop where
  instance_eq : s.instanceCounter = s.heldStrong
  state_eq : s.stateCounter = s.heldState
  instance_lt : s.instanceCounter < counterSize
  state_lt : s.stateCounter < counterSize
  strong_le : min 1 (tally Call.usesStrong s.calls) ≤ s.strong
  weak_le : min 1 (tally Call.usesWeak s.calls) ≤ s.weak
  destructed_eq : s.destructed + tally Call.destructs s.calls =
    if s.instanceCounter = 0 then 1 else 0
  released_eq : s.released + tally Call.frees s.calls = if s.stateCounter = 0 then 1 else 0
  freed_eq : s.freed = if s.allocator then s.released else 0
  /-- `tryAddRef` left its loop on a zero. -/
  value_ne : ∀ c ∈ s.calls, c ≠ .operand 0 ∧ ∀ d, c ≠ .exchange 0 d

theorem inv_new (allocator : Bool) : Inv (State.new allocator) where
  instance_eq := rfl
  state_eq := rfl
  instance_lt := by simp [State.new, counterSize]
  state_lt := by simp [State.new, counterSize]
  strong_le := by simp [State.new]
  weak_le := by simp [State.new]
  destructed_eq := rfl
  released_eq := rfl
  freed_eq := by cases allocator <;> rfl
  value_ne := by simp [State.new]

/-! ### Entering a method -/

/-- A call begins: what it has to release comes out of its holder's hands, and a reference stays
for each kind that is in use. -/
theorem begin_inv {s : State} (hi : Inv s) (c : Call) (strong weak : Nat)
    (hst : strong + c.strongRefs = s.strong) (hse : strong + weak + c.stateRefs = s.strong + s.weak)
    (hus : min 1 (tally Call.usesStrong s.calls + c.usesStrong) ≤ strong)
    (huw : min 1 (tally Call.usesWeak s.calls + c.usesWeak) ≤ weak)
    (hd : c.destructs = 0) (hf : c.frees = 0) (hv : c ≠ .operand 0 ∧ ∀ d, c ≠ .exchange 0 d) :
    Inv { s with strong := strong, weak := weak, calls := s.calls ++ [c] } := by
  have h₁ := hi.instance_eq
  have h₂ := hi.state_eq
  simp only [State.heldStrong, State.heldState] at h₁ h₂
  refine ⟨?_, ?_, hi.instance_lt, hi.state_lt, ?_, ?_, ?_, ?_, hi.freed_eq, ?_⟩
  · simp [State.heldStrong]; omega
  · simp [State.heldState]; omega
  · simpa using hus
  · simpa using huw
  · simpa [hd] using hi.destructed_eq
  · simpa [hf] using hi.released_eq
  · intro c' hc'
    rcases List.mem_append.mp hc' with hc' | hc'
    · exact hi.value_ne c' hc'
    · rw [List.mem_singleton.mp hc']; exact hv

theorem useStrong_inv {s s' : State} {c : Call} (hi : Inv s) (h : s.useStrong c = some s')
    (hst : c.strongRefs = 0) (hse : c.stateRefs = 0) (huw : c.usesWeak = 0)
    (hd : c.destructs = 0) (hf : c.frees = 0) (hv : c ≠ .operand 0 ∧ ∀ d, c ≠ .exchange 0 d) :
    Inv s' := by
  simp only [State.useStrong, Option.ite_none_left_eq_some, Option.some.injEq] at h
  obtain ⟨hpos, rfl⟩ := h
  have hw := hi.weak_le
  exact begin_inv hi c s.strong s.weak (by omega) (by omega) (by omega) (by omega) hd hf hv

theorem useWeak_inv {s s' : State} {c : Call} (hi : Inv s) (h : s.useWeak c = some s')
    (hst : c.strongRefs = 0) (hse : c.stateRefs = 0) (hus : c.usesStrong = 0)
    (hd : c.destructs = 0) (hf : c.frees = 0) (hv : c ≠ .operand 0 ∧ ∀ d, c ≠ .exchange 0 d) :
    Inv s' := by
  simp only [State.useWeak, Option.ite_none_left_eq_some, Option.some.injEq] at h
  obtain ⟨hpos, rfl⟩ := h
  have hs := hi.strong_le
  exact begin_inv hi c s.strong s.weak (by omega) (by omega) (by omega) (by omega) hd hf hv

theorem enter_inv {s s' : State} {m : Method} (hi : Inv s) (h : s.enter m = some s') :
    Inv s' := by
  cases m with
  | addInstanceRef => exact useStrong_inv hi h rfl rfl rfl rfl rfl (by simp)
  | releaseInstanceRef =>
      simp only [State.enter, Option.ite_none_right_eq_some, Option.some.injEq] at h
      obtain ⟨hlt, rfl⟩ := h
      exact begin_inv hi .removeInstance (s.strong - 1) s.weak
        (by simp only [Call.strongRefs]; omega) (by simp only [Call.stateRefs]; omega)
        (by simp only [Call.usesStrong]; omega) hi.weak_le rfl rfl (by simp)
  | acquireWeakRef => exact useStrong_inv hi h rfl rfl rfl rfl rfl (by simp)
  | acquire => exact useWeak_inv hi h rfl rfl rfl rfl rfl (by simp)
  | addWeakRef => exact useWeak_inv hi h rfl rfl rfl rfl rfl (by simp)
  | releaseRef =>
      simp only [State.enter, Option.ite_none_right_eq_some, Option.some.injEq] at h
      obtain ⟨hlt, rfl⟩ := h
      exact begin_inv hi .removeState s.strong (s.weak - 1) rfl
        (by simp only [Call.stateRefs]; omega) hi.strong_le
        (by simp only [Call.usesWeak]; omega) rfl rfl (by simp)

/-! ### The step of a call -/

/-- The invariant after a call's step, from what the step does to the counters, to the references
in hand and to what the call holds. -/
theorem replaced_inv {s : State} {i : Nat} {c : Call} (hi : Inv s) (hc : s.calls[i]? = some c)
    (t : State) (c' : Call)
    (hinst : t.instanceCounter + s.strong + c.strongRefs =
      s.instanceCounter + t.strong + c'.strongRefs)
    (hstate : t.stateCounter + s.strong + s.weak + c.stateRefs =
      s.stateCounter + t.strong + t.weak + c'.stateRefs)
    (hil : t.instanceCounter < counterSize) (hsl : t.stateCounter < counterSize)
    (hst : s.strong ≤ t.strong) (hwk : s.weak ≤ t.weak)
    (hus : c'.usesStrong ≤ c.usesStrong) (huw : c'.usesWeak ≤ c.usesWeak)
    (hd : t.destructed + c'.destructs + (if s.instanceCounter = 0 then 1 else 0) =
      s.destructed + c.destructs + if t.instanceCounter = 0 then 1 else 0)
    (hr : t.released + c'.frees + (if s.stateCounter = 0 then 1 else 0) =
      s.released + c.frees + if t.stateCounter = 0 then 1 else 0)
    (hf : t.freed = if t.allocator then t.released else 0)
    (hv : c' ≠ .operand 0 ∧ ∀ d, c' ≠ .exchange 0 d) :
    Inv { t with calls := s.calls.set i c' } := by
  have h₁ := hi.instance_eq
  have h₂ := hi.state_eq
  have h₃ := hi.strong_le
  have h₄ := hi.weak_le
  have h₅ := hi.destructed_eq
  have h₆ := hi.released_eq
  have e₁ := tally_set Call.strongRefs hc c'
  have e₂ := tally_set Call.stateRefs hc c'
  have e₃ := tally_set Call.destructs hc c'
  have e₄ := tally_set Call.frees hc c'
  have e₅ := tally_set Call.usesStrong hc c'
  have e₆ := tally_set Call.usesWeak hc c'
  simp only [State.heldStrong, State.heldState] at h₁ h₂
  refine ⟨?_, ?_, hil, hsl, ?_, ?_, ?_, ?_, hf, ?_⟩
  · simp only [State.heldStrong]; omega
  · simp only [State.heldState]; omega
  · show min 1 (tally Call.usesStrong (s.calls.set i c')) ≤ t.strong
    omega
  · show min 1 (tally Call.usesWeak (s.calls.set i c')) ≤ t.weak
    omega
  · show t.destructed + tally Call.destructs (s.calls.set i c') =
      if t.instanceCounter = 0 then 1 else 0
    omega
  · show t.released + tally Call.frees (s.calls.set i c') =
      if t.stateCounter = 0 then 1 else 0
    omega
  · intro c'' hc''
    rcases List.mem_or_eq_of_mem_set hc'' with hc'' | rfl
    · exact hi.value_ne c'' hc''
    · exact hv

/-- A step that changes nothing but where the call stands. -/
theorem moved_inv {s : State} {i : Nat} {c : Call} (hi : Inv s) (hc : s.calls[i]? = some c)
    (c' : Call) (hst : c'.strongRefs = c.strongRefs) (hse : c'.stateRefs = c.stateRefs)
    (hus : c'.usesStrong ≤ c.usesStrong) (huw : c'.usesWeak ≤ c.usesWeak)
    (hd : c'.destructs = c.destructs) (hf : c'.frees = c.frees)
    (hv : c' ≠ .operand 0 ∧ ∀ d, c' ≠ .exchange 0 d) :
    Inv { s with calls := s.calls.set i c' } :=
  replaced_inv hi hc s c' (by rw [hst]) (by rw [hse]) hi.instance_lt hi.state_lt le_rfl le_rfl
    hus huw (by rw [hd]) (by rw [hf]) hi.freed_eq hv

theorem fetchAdd_of_lt {n : Nat} (h : n + 1 < counterSize) : fetchAdd n = n + 1 :=
  Nat.mod_eq_of_lt h

theorem fetchSub_of_pos {n : Nat} (h : 0 < n) : fetchSub n = n - 1 :=
  if_neg (Nat.ne_of_gt h)

/-- A test of the loaded counter takes nothing. -/
theorem tested_inv {s : State} {i : Nat} {c : Call} (hi : Inv s) (hc : s.calls[i]? = some c)
    (v : Nat) (hst : c.strongRefs = 0) (hse : c.stateRefs = 0) (huw : c.usesWeak = 1)
    (hd : c.destructs = 0) (hf : c.frees = 0) :
    Inv { s with calls := s.calls.set i (State.tested v) } := by
  by_cases hv : v = 0
  · simp only [State.tested, hv, ↓reduceIte]
    exact moved_inv hi hc .done hst.symm hse.symm (Nat.zero_le _) (Nat.zero_le _) hd.symm hf.symm
      (by simp)
  · simp only [State.tested, hv, ↓reduceIte]
    exact moved_inv hi hc (.operand v) hst.symm hse.symm (Nat.zero_le _) huw.ge hd.symm hf.symm
      (by simp [hv])

/-- `addRef(m_instanceCounter)` through a strong reference. -/
theorem addInstance_inv {s : State} {i : Nat} (hi : Inv s) (hc : s.calls[i]? = some .addInstance)
    (hlt : s.instanceCounter + 1 < counterSize) :
    Inv { s with
      instanceCounter := fetchAdd s.instanceCounter
      calls := s.calls.set i .addState } := by
  have h₁ := hi.instance_eq
  have h₂ := hi.strong_le
  have hle := le_tally Call.usesStrong hc
  simp only [State.heldStrong, Call.usesStrong] at h₁ hle
  rw [fetchAdd_of_lt hlt]
  refine replaced_inv hi hc { s with instanceCounter := s.instanceCounter + 1 } .addState
    ?_ rfl hlt hi.state_lt le_rfl le_rfl le_rfl le_rfl ?_ rfl hi.freed_eq (by simp)
  · simp only [Call.strongRefs]; omega
  · rw [if_neg (by omega), if_neg (by show s.instanceCounter + 1 ≠ 0; omega)]; rfl

/-- `removeRef(m_instanceCounter)`: the last strong reference leads to the destructor. -/
theorem removeInstance_inv {s : State} {i : Nat} (hi : Inv s)
    (hc : s.calls[i]? = some .removeInstance) :
    Inv { s with
      instanceCounter := fetchSub s.instanceCounter
      calls := s.calls.set i (if s.instanceCounter = 1 then .destruct else .removeState) } := by
  have h₁ := hi.instance_eq
  have h₃ := hi.instance_lt
  have hst := le_tally Call.strongRefs hc
  simp only [State.heldStrong, Call.strongRefs] at h₁ hst
  have hlt : s.instanceCounter - 1 < counterSize := Nat.lt_of_le_of_lt (Nat.sub_le _ _) h₃
  rw [fetchSub_of_pos (by omega)]
  by_cases h : s.instanceCounter = 1
  · rw [if_pos h]
    refine replaced_inv hi hc { s with instanceCounter := s.instanceCounter - 1 } .destruct
      ?_ rfl hlt hi.state_lt le_rfl le_rfl le_rfl le_rfl ?_ rfl hi.freed_eq (by simp)
    · simp only [Call.strongRefs]; omega
    · simp [Call.destructs, h]
  · rw [if_neg h]
    refine replaced_inv hi hc { s with instanceCounter := s.instanceCounter - 1 } .removeState
      ?_ rfl hlt hi.state_lt le_rfl le_rfl le_rfl le_rfl ?_ rfl hi.freed_eq (by simp)
    · simp only [Call.strongRefs]; omega
    · rw [if_neg (by omega), if_neg (by show s.instanceCounter - 1 ≠ 0; omega)]; rfl

/-- `removeRef(m_stateCounter)`: the last reference of all leads to the end of the storage. -/
theorem removeState_inv {s : State} {i : Nat} (hi : Inv s)
    (hc : s.calls[i]? = some .removeState) :
    Inv { s with
      stateCounter := fetchSub s.stateCounter
      calls := s.calls.set i (if s.stateCounter = 1 then .free else .done) } := by
  have h₂ := hi.state_eq
  have h₄ := hi.state_lt
  have hse := le_tally Call.stateRefs hc
  simp only [State.heldState, Call.stateRefs] at h₂ hse
  have hlt : s.stateCounter - 1 < counterSize := Nat.lt_of_le_of_lt (Nat.sub_le _ _) h₄
  rw [fetchSub_of_pos (by omega)]
  by_cases h : s.stateCounter = 1
  · rw [if_pos h]
    refine replaced_inv hi hc { s with stateCounter := s.stateCounter - 1 } .free
      rfl ?_ hi.instance_lt hlt le_rfl le_rfl le_rfl le_rfl rfl ?_ hi.freed_eq (by simp)
    · simp only [Call.stateRefs]; omega
    · simp [Call.frees, h]
  · rw [if_neg h]
    refine replaced_inv hi hc { s with stateCounter := s.stateCounter - 1 } .done
      rfl ?_ hi.instance_lt hlt le_rfl le_rfl le_rfl le_rfl rfl ?_ hi.freed_eq (by simp)
    · simp only [Call.stateRefs]; omega
    · rw [if_neg (by omega), if_neg (by show s.stateCounter - 1 ≠ 0; omega)]; rfl

/-- A compare-exchange that stores the successor of a value that is not zero: the instance is
alive, and the call has its reference. -/
theorem exchanged_inv {s : State} {i value desired : Nat} (hi : Inv s)
    (hc : s.calls[i]? = some (.exchange value desired)) (h : s.instanceCounter = value)
    (hd : desired = value + 1) (hlt : desired < counterSize) :
    Inv { s with instanceCounter := desired, calls := s.calls.set i .acquired } := by
  have hv := (hi.value_ne _ (List.mem_of_getElem? hc)).2 desired
  have hpos : value ≠ 0 := by rintro rfl; exact hv rfl
  refine replaced_inv hi hc { s with instanceCounter := desired } .acquired ?_ rfl hlt hi.state_lt
    le_rfl le_rfl le_rfl le_rfl ?_ rfl hi.freed_eq (by simp)
  · simp only [Call.strongRefs]; omega
  · rw [if_neg (h.trans_ne hpos), if_neg (by show desired ≠ 0; omega)]; rfl

/-- A step that adds one to `m_stateCounter`, through a reference in use, and hands it out. -/
theorem addedState_inv {s : State} {i : Nat} {c : Call} (hi : Inv s)
    (hc : s.calls[i]? = some c) (hlt : s.stateCounter + 1 < counterSize) (strong weak : Nat)
    (hst : strong = s.strong + c.strongRefs) (hse : strong + weak = s.strong + s.weak + 1)
    (hwk : s.weak ≤ weak) (hse₀ : c.stateRefs = 0) (huse : 1 ≤ c.usesStrong + c.usesWeak)
    (hd : c.destructs = 0) (hf : c.frees = 0) :
    Inv { s with
      stateCounter := fetchAdd s.stateCounter
      strong := strong
      weak := weak
      calls := s.calls.set i .done } := by
  have h₂ := hi.state_eq
  have h₃ := hi.strong_le
  have h₄ := hi.weak_le
  have hle := le_tally Call.usesStrong hc
  have hle' := le_tally Call.usesWeak hc
  simp only [State.heldState] at h₂
  rw [fetchAdd_of_lt hlt]
  refine replaced_inv hi hc
    { s with stateCounter := s.stateCounter + 1, strong := strong, weak := weak } .done
    ?_ ?_ hi.instance_lt hlt ?_ hwk (Nat.zero_le _) (Nat.zero_le _) ?_ ?_ hi.freed_eq (by simp)
  · show s.instanceCounter + s.strong + c.strongRefs = s.instanceCounter + strong + 0
    omega
  · show s.stateCounter + 1 + s.strong + s.weak + c.stateRefs =
      s.stateCounter + strong + weak + 0
    omega
  · show s.strong ≤ strong
    omega
  · rw [hd]; rfl
  · rw [if_neg (by omega), if_neg (by show s.stateCounter + 1 ≠ 0; omega), hf]; rfl

/-- One step of a call. -/
theorem advance_inv {s : State} {i : Nat} {spurious : Bool} {c : Call} (hi : Inv s)
    (hc : s.calls[i]? = some c) (hok : s.Clear spurious c) :
    Inv { (s.advance spurious c).1 with calls := s.calls.set i (s.advance spurious c).2 } := by
  cases c with
  | addInstance => exact addInstance_inv hi hc hok
  | addState =>
      exact addedState_inv hi hc hok (s.strong + 1) s.weak rfl (by omega) le_rfl rfl le_rfl rfl rfl
  | removeInstance => exact removeInstance_inv hi hc
  | destruct =>
      exact replaced_inv hi hc { s with destructed := s.destructed + 1 } .removeState rfl rfl
        hi.instance_lt hi.state_lt le_rfl le_rfl le_rfl le_rfl rfl rfl hi.freed_eq (by simp)
  | removeState => exact removeState_inv hi hc
  | free =>
      refine replaced_inv hi hc
        { s with
          released := s.released + 1
          freed := if s.allocator then s.freed + 1 else s.freed } .done rfl rfl
        hi.instance_lt hi.state_lt le_rfl le_rfl le_rfl le_rfl rfl rfl ?_ (by simp)
      by_cases ha : s.allocator <;> simp [ha, hi.freed_eq]
  | acquireWeakRef =>
      exact addedState_inv hi hc hok s.strong (s.weak + 1) rfl (by omega) (by omega) rfl le_rfl
        rfl rfl
  | addWeakRef =>
      exact addedState_inv hi hc hok s.strong (s.weak + 1) rfl (by omega) (by omega) rfl le_rfl
        rfl rfl
  | load => exact tested_inv hi hc s.instanceCounter rfl rfl rfl rfl rfl
  | operand value =>
      have hv : value ≠ 0 := by
        rintro rfl
        exact (hi.value_ne _ (List.mem_of_getElem? hc)).1 rfl
      exact moved_inv hi hc (.exchange value (fetchAdd s.instanceCounter)) rfl rfl le_rfl le_rfl
        rfl rfl (by simp [hv])
  | exchange value desired =>
      by_cases h : s.instanceCounter = value ∧ spurious = false
      · simp only [State.advance, h, and_self, ↓reduceIte]
        obtain ⟨hd, hlt⟩ := hok h.1 h.2
        exact exchanged_inv hi hc h.1 hd hlt
      · simp only [State.advance, h, ↓reduceIte]
        exact tested_inv hi hc s.instanceCounter rfl rfl rfl rfl rfl
  | acquired =>
      exact addedState_inv hi hc hok (s.strong + 1) s.weak rfl (by omega) le_rfl rfl le_rfl rfl rfl
  | done => exact moved_inv hi hc .done rfl rfl le_rfl le_rfl rfl rfl (by simp)

theorem step_inv {s s' : State} {a : Act} (hi : Inv s) (hok : Clear s a)
    (h : s.step a = some s') : Inv s' := by
  cases a with
  | call m => exact enter_inv hi h
  | step i spurious =>
      obtain ⟨c, hc, rfl⟩ := Option.map_eq_some_iff.mp h
      exact advance_inv hi hc (hok c hc)

theorem run_inv {allocator : Bool} {s : State}
    (h : Steps State.step Clear (State.new allocator) s) : Inv s :=
  h.invariant step_inv (inv_new allocator)

/-! ### What the counters promise -/

/-- The promise of the counters in a state. -/
structure Counted (s : State) : Prop where
  instance_eq : s.instanceCounter = s.heldStrong
  /-- The instance destructor runs at most once, and not while a strong reference is held. -/
  destructed_le : s.destructed ≤ 1
  destructed_dead : 0 < s.destructed → s.heldStrong = 0
  destruct_dead : Call.destruct ∈ s.calls → s.heldStrong = 0 ∧ s.destructed = 0
  /-- The storage goes at most once, after the destructor and after the last reference. -/
  released_le : s.released ≤ 1
  released_dead : 0 < s.released → s.heldState = 0 ∧ s.destructed = 1
  free_dead : Call.free ∈ s.calls → s.heldState = 0 ∧ s.destructed = 1 ∧ s.released = 0
  freed_eq : s.freed = if s.allocator then s.released else 0
  /-- Once the calls are over, what had to happen has happened. -/
  quiet_destructed : s.Quiet → s.heldStrong = 0 → s.destructed = 1
  quiet_released : s.Quiet → s.heldState = 0 → s.released = 1

theorem mem_tally_pos {f : Call → Nat} {l : List Call} {c : Call} (h : c ∈ l) (hf : f c = 1) :
    1 ≤ tally f l := by
  obtain ⟨i, hi⟩ := List.getElem?_of_mem h
  exact hf ▸ le_tally f hi

theorem quiet_tally {f : Call → Nat} {s : State} (h : s.Quiet) (hf : f .done = 0) :
    tally f s.calls = 0 :=
  tally_eq_zero.mpr fun c hc => h c hc ▸ hf

/-- With the last reference of either kind gone, the destructor has run: no call has yet to run
it, and none holds a strong reference. -/
theorem dead_of_stateCounter {s : State} (hi : Inv s) (h : s.stateCounter = 0) :
    s.destructed = 1 := by
  have h₁ := hi.instance_eq
  have h₂ := hi.state_eq
  have h₃ := hi.strong_le
  have h₄ := hi.weak_le
  have h₅ := hi.destructed_eq
  simp only [State.heldStrong, State.heldState] at h₁ h₂
  have hd := tally_le_tally (l := s.calls) fun c _ => Call.destructs_le c
  have hs := tally_le_tally (l := s.calls) fun c _ => Call.strongRefs_le c
  rw [tally_add, tally_add] at hs
  rw [if_pos (by omega)] at h₅
  omega

theorem counted_of_inv {s : State} (hi : Inv s) : Counted s := by
  have h₁ := hi.instance_eq
  have h₂ := hi.state_eq
  have h₅ := hi.destructed_eq
  have h₆ := hi.released_eq
  refine ⟨h₁, ?_, fun h => ?_, fun h => ?_, ?_, fun h => ?_, fun h => ?_, hi.freed_eq,
    fun hq h => ?_, fun hq h => ?_⟩
  · split at h₅ <;> omega
  · split at h₅ <;> omega
  · have := mem_tally_pos (f := Call.destructs) h rfl
    split at h₅ <;> omega
  · split at h₆ <;> omega
  · have h₀ : s.stateCounter = 0 := by split at h₆ <;> omega
    exact ⟨h₂ ▸ h₀, dead_of_stateCounter hi h₀⟩
  · have hf := mem_tally_pos (f := Call.frees) h rfl
    have h₀ : s.stateCounter = 0 := by split at h₆ <;> omega
    exact ⟨h₂ ▸ h₀, dead_of_stateCounter hi h₀, by rw [if_pos h₀] at h₆; omega⟩
  · rw [quiet_tally hq rfl, if_pos (h₁.trans h)] at h₅
    exact h₅
  · rw [quiet_tally hq rfl, if_pos (h₂.trans h)] at h₆
    exact h₆

/-- Entering a method leaves the calls in progress where they stand. -/
theorem enter_calls {s s' : State} {m : Method} (h : s.enter m = some s') :
    ∃ c, s'.calls = s.calls ++ [c] := by
  cases m with
  | addInstanceRef | acquireWeakRef =>
      simp only [State.enter, State.useStrong, Option.ite_none_left_eq_some,
        Option.some.injEq] at h
      exact ⟨_, (congrArg State.calls h.2).symm⟩
  | releaseInstanceRef | releaseRef =>
      simp only [State.enter, Option.ite_none_right_eq_some, Option.some.injEq] at h
      exact ⟨_, (congrArg State.calls h.2).symm⟩
  | acquire | addWeakRef =>
      simp only [State.enter, State.useWeak, Option.ite_none_left_eq_some, Option.some.injEq] at h
      exact ⟨_, (congrArg State.calls h.2).symm⟩

/-- Only its own compare-exchange takes an `acquire` out of its loop. -/
theorem acquires_exchange {s s' : State} {a : Act} (h : s.step a = some s')
    (hacq : s.Acquires s') :
    ∃ i desired, a = .step i false ∧
      s.calls[i]? = some (Call.exchange s.instanceCounter desired) ∧
      s' = { s with instanceCounter := desired, calls := s.calls.set i .acquired } := by
  obtain ⟨i, value, desired, hc, hc'⟩ := hacq
  have hi : i < s.calls.length := (List.getElem?_eq_some_iff.mp hc).1
  cases a with
  | call m =>
      obtain ⟨c, e⟩ := enter_calls h
      rw [e, List.getElem?_append_left hi, hc] at hc'
      simp at hc'
  | step j spurious =>
      obtain ⟨c, hj, rfl⟩ := Option.map_eq_some_iff.mp h
      by_cases hij : j = i
      · subst hij
        obtain rfl : Call.exchange value desired = c := Option.some.inj (hc.symm.trans hj)
        by_cases hx : s.instanceCounter = value ∧ spurious = false
        · obtain ⟨rfl, rfl⟩ := hx
          exact ⟨j, desired, rfl, hc, by simp [State.advance]⟩
        · simp only [State.advance, hx, ↓reduceIte, State.tested, List.getElem?_set_self hi] at hc'
          split at hc' <;> simp at hc'
      · simp only [List.getElem?_set_ne hij, hc] at hc'
        simp at hc'

/-- A compare-exchange of an `acquire` that succeeds takes one strong reference to an instance
whose destructor has not run and is not about to. -/
theorem acquires_one {s s' : State} {a : Act} (hi : Inv s) (hok : Clear s a)
    (h : s.step a = some s') (hacq : s.Acquires s') :
    s'.heldStrong = s.heldStrong + 1 ∧ s.destructed = 0 ∧ Call.destruct ∉ s.calls := by
  obtain ⟨i, desired, rfl, hc, rfl⟩ := acquires_exchange h hacq
  have hi' := step_inv hi hok h
  obtain ⟨hd, -⟩ := hok _ hc rfl rfl
  have hv : s.instanceCounter ≠ 0 := fun h₀ =>
    (hi.value_ne _ (List.mem_of_getElem? hc)).2 desired (h₀ ▸ rfl)
  have h₅ := hi.destructed_eq
  rw [if_neg hv] at h₅
  refine ⟨?_, by omega, fun hm => ?_⟩
  · rw [← hi'.instance_eq, ← hi.instance_eq]
    exact hd
  · have := mem_tally_pos (f := Call.destructs) hm rfl
    omega

/-- **In every run clear of the two defects the counters keep their promise**, and every
successful `acquire` adds one strong reference to an instance that is not destroyed. -/
theorem counted_of_clear {allocator : Bool} {s : State}
    (h : Steps State.step Clear (State.new allocator) s) :
    Counted s ∧ ∀ a s', Clear s a → s.step a = some s' → s.Acquires s' →
      s'.heldStrong = s.heldStrong + 1 ∧ s.destructed = 0 ∧ Call.destruct ∉ s.calls :=
  ⟨counted_of_inv (run_inv h), fun _ _ hok hs => acquires_one (run_inv h) hok hs⟩

/-- A weak reference is turned into a strong one, and every reference is then released. -/
def acquired : List Act :=
  [.call .acquireWeakRef, .step 0 false, .call .acquire, .step 1 false, .step 1 false,
    .step 1 true, .step 1 false, .step 1 false, .step 1 false, .call .releaseInstanceRef,
    .step 2 false, .step 2 false, .call .releaseInstanceRef, .step 3 false, .step 3 false,
    .step 3 false, .call .releaseRef, .step 4 false, .step 4 false]

theorem acquired_counted :
    exec State.step (State.new true) acquired =
        some ⟨true, 0, 0, 0, 0, .replicate 5 .done, 1, 1, 1⟩ ∧
      Counted ⟨true, 0, 0, 0, 0, .replicate 5 .done, 1, 1, 1⟩ := by
  have h : exec State.step (State.new true) acquired =
      some ⟨true, 0, 0, 0, 0, .replicate 5 .done, 1, 1, 1⟩ := by decide
  exact ⟨h, (counted_of_clear (exec_steps (show Allowed _ Clear _ acquired by decide) h)).1⟩

/-- Two `addInstanceRef` and `releaseInstanceRef` on one thread while another one is between the
load and the compare-exchange of an `acquire`: the counter is 1, then 2 when `counter + 1` is
evaluated, then 1 again. -/
def skewed : List Act :=
  [.call .acquireWeakRef, .step 0 false, .call .acquire, .step 1 false,
    .call .addInstanceRef, .step 2 false, .step 2 false, .step 1 false,
    .call .releaseInstanceRef, .step 3 false, .step 3 false, .step 1 false, .step 1 false]

/-- Every strong reference is then released, and the weak one. -/
def skewedEnd : List Act :=
  [.call .releaseInstanceRef, .step 4 false, .step 4 false,
    .call .releaseInstanceRef, .step 5 false, .step 5 false, .call .releaseRef, .step 6 false,
    .step 6 false]

/-- The run leaves two strong references and a counter of three.  Without any reference left the
instance destructor has not run, and the storage is freed. -/
theorem skewed_uncounted :
    (∃ s, Steps State.step Free (State.new true) s ∧ s.Quiet ∧
      s.instanceCounter = 3 ∧ s.heldStrong = 2) ∧
    ∃ s, Steps State.step Free (State.new true) s ∧ s.Quiet ∧
      s.heldState = 0 ∧ s.destructed = 0 ∧ s.freed = 1 ∧ ¬ Counted s := by
  refine ⟨⟨⟨true, 3, 3, 2, 1, .replicate 4 .done, 0, 0, 0⟩, ?_, ?_, rfl, rfl⟩,
    ⟨⟨true, 1, 0, 0, 0, .replicate 7 .done, 0, 1, 1⟩, ?_, ?_, rfl, rfl, rfl, fun hc => ?_⟩⟩
  · exact exec_steps (allowed_free skewed _) (by decide)
  · simp [State.Quiet]
  · exact exec_steps (allowed_free (skewed ++ skewedEnd) _) (by decide)
  · simp [State.Quiet]
  · have := hc.quiet_destructed (by simp [State.Quiet]) rfl
    simp at this

end MyEngine.Rtti
