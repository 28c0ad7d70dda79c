import MyEngine.Memory.Buffer
import MyEngine.Support.Replace

/-!
# Memory — BufferCounts

The reference count of every storage is the number of handles that own it, as long as that number
fits the 32 bits of `refs`.

* `State.held`: the handles of a storage, the `Buffer`s among them and the others.
* `Owned`: what every operation keeps.
* `Owned.moved`, `Owned.release`: a handle gives its storage to another one, or gives it up.
-/

namespace MyEngine.Memory

open Runs

/-- The handle is a `Buffer`, or is not, and has the storage. -/
def Handle.weight (isBuffer : Bool) (j : ℕ) (h : Handle) : ℕ :=
  if (h.kind == .buffer) = isBuffer ∧ h.storage = some j then 1 else 0

def State.held (s : State) (isBuffer : Bool) (j : ℕ) : ℕ :=
  tally (Handle.weight isBuffer j) s.handles

/-- The handles that own a storage. -/
def State.owners (s : State) (j : ℕ) : ℕ := s.held true j + s.held false j

/-- A storage with `n` owners: it counts them, or has been freed once and has none. -/
def Fits : Option Storage → ℕ → Prop
  | none, n        => n = 0
  | some header, n =>
      header.freedTo = [] ∧ header.refs = n ∧ 0 < n ∨ header.freedTo.length = 1 ∧ n = 0

/-- Every storage counts its owners, whose number fits, and a `Buffer` is the only one. -/
structure Owned (s : State) : Prop where
  fits : ∀ j, Fits s.storages[j]? (s.owners j)
  alone : ∀ j, s.held true j = 0 ∨ s.held true j = 1 ∧ s.held false j = 0
  small : ∀ j, s.owners j < 2 ^ 32

/-! ### Handles -/

section
variable {s : State} {i j : ℕ} {h : Handle} {kind : HandleKind} {v : Option ℕ} {b : Bool}

theorem held_push : (s.push kind v).held b j = s.held b j + Handle.weight b j ⟨kind, v⟩ := by
  rw [State.held, State.push, tally_append]
  rfl

theorem setStorage_handles (hi : s.handles[i]? = some h) :
    s.setStorage i v = { s with handles := s.handles.set i { h with storage := v } } := by
  rw [State.setStorage, hi]

theorem held_setStorage (hi : s.handles[i]? = some h) :
    (s.setStorage i v).held b j + Handle.weight b j h =
      s.held b j + Handle.weight b j { h with storage := v } := by
  rw [setStorage_handles hi]
  exact tally_set _ hi _

theorem setStorage_get (hi : s.handles[i]? = some h) :
    (s.setStorage i v).handles[i]? = some { h with storage := v } := by
  rw [setStorage_handles hi]
  exact getElem?_replaced hi _

theorem setStorage_get_ne {k : ℕ} (hk : k ≠ i) :
    (s.setStorage i v).handles[k]? = s.handles[k]? := by
  rw [State.setStorage]
  split
  · exact List.getElem?_set_ne hk.symm
  · rfl

@[simp] theorem setStorage_storages : (s.setStorage i v).storages = s.storages := by
  rw [State.setStorage]
  split <;> rfl

theorem storageOf_eq (hi : s.handles[i]? = some h) : s.storageOf i = h.storage := by
  rw [State.storageOf, hi]
  rfl

theorem storageOf_mk (hi : s.handles[i]? = some ⟨kind, v⟩) : s.storageOf i = v := storageOf_eq hi

theorem held_setStorage_mk {w : Option ℕ} (hi : s.handles[i]? = some ⟨kind, w⟩) :
    (s.setStorage i v).held b j + Handle.weight b j ⟨kind, w⟩ =
      s.held b j + Handle.weight b j ⟨kind, v⟩ := held_setStorage hi

/-- A handle is one of the owners of its storage. -/
theorem weight_le (hi : s.handles[i]? = some h) : Handle.weight b j h ≤ s.held b j := le_tally _ hi

theorem weight_none (kind : HandleKind) : Handle.weight b j ⟨kind, none⟩ = 0 := by
  rw [Handle.weight, if_neg]
  rintro ⟨-, h⟩
  cases h

/-- Of the two weights of a handle one is its own. -/
theorem weight_add (h : Handle) :
    Handle.weight true j h + Handle.weight false j h = if h.storage = some j then 1 else 0 := by
  cases hb : h.kind == .buffer <;> by_cases hs : h.storage = some j <;>
    simp [Handle.weight, hb, hs]

end

/-! ### Storages -/

namespace Owned

variable {s t : State} {i j : ℕ} {h : Handle}

theorem init : Owned {} where
  fits _ := rfl
  alone _ := .inl rfl
  small _ := Nat.two_pow_pos 32

/-- A storage that has an owner is there, and counts it. -/
theorem access (ho : Owned s) (ht : t.storages = s.storages) (hj : 0 < s.owners j) :
    ∃ header, s.storages[j]? = some header ∧ t.access j = .ok header ∧ header.freedTo = [] ∧
      header.refs = s.owners j := by
  have hfits := ho.fits j
  cases hheader : s.storages[j]? with
  | none =>
      rw [hheader] at hfits
      exact absurd hfits (Nat.ne_of_gt hj)
  | some header =>
      rw [hheader] at hfits
      rcases hfits with ⟨hfreed, hrefs, -⟩ | ⟨-, hzero⟩
      · refine ⟨header, rfl, ?_, hfreed, hrefs⟩
        rw [State.access, ht, hheader]
        exact if_pos hfreed
      · exact absurd hzero (Nat.ne_of_gt hj)

/-- The owners of one storage change, and its header with them. -/
theorem of_setHeader (ho : Owned s) {header : Storage} (ht : t.storages = s.storages)
    (hj : j < s.storages.length) (hfits : Fits (some header) (t.owners j))
    (hother : ∀ k, k ≠ j → t.owners k = s.owners k)
    (halone : ∀ k, t.held true k = 0 ∨ t.held true k = 1 ∧ t.held false k = 0)
    (hsmall : t.owners j < 2 ^ 32) : Owned (t.setHeader j header) where
  fits k := by
    change Fits (t.storages.set j header)[k]? (t.owners k)
    rw [ht]
    by_cases hk : k = j
    · rw [hk, List.getElem?_set_self hj]
      exact hfits
    · rw [List.getElem?_set_ne (Ne.symm hk), hother k hk]
      exact ho.fits k
  alone := halone
  small k := by
    change t.owners k < 2 ^ 32
    by_cases hk : k = j
    · rw [hk]
      exact hsmall
    · rw [hother k hk]
      exact ho.small k

/-- A handle gives its storage to another. -/
theorem moved (ho : Owned s) (ht : t.storages = s.storages) (kind kind' : HandleKind)
    (v : Option ℕ) (hheld : ∀ b k, t.held b k + Handle.weight b k ⟨kind, v⟩ =
      s.held b k + Handle.weight b k ⟨kind', v⟩)
    (hfrom : ∀ b k, Handle.weight b k ⟨kind, v⟩ ≤ s.held b k)
    (hkind : kind' = .buffer → kind = .buffer ∨ ∀ j, v = some j → s.owners j = 1) : Owned t := by
  have howners : ∀ k, t.owners k = s.owners k := by
    intro k
    have h₁ := hheld true k
    have h₂ := hheld false k
    have hw := weight_add (j := k) ⟨kind, v⟩
    have hw' := weight_add (j := k) ⟨kind', v⟩
    rw [State.owners, State.owners]
    dsimp only at hw hw'
    omega
  refine ⟨fun k => ?_, fun k => ?_, fun k => ?_⟩
  · rw [ht, howners k]
    exact ho.fits k
  · have h₁ := hheld true k
    have h₂ := hheld false k
    have hf₁ := hfrom true k
    have hf₂ := hfrom false k
    have halone := ho.alone k
    by_cases hv : v = some k
    · have hone : kind' = .buffer → kind = .buffer ∨ s.held true k + s.held false k = 1 :=
        fun hk => (hkind hk).imp_right fun h => h k hv
      by_cases hb : kind = .buffer <;> by_cases hb' : kind' = .buffer <;>
        simp [Handle.weight, hv, hb, hb'] at h₁ h₂ hf₁ hf₂ hone <;> omega
    · simp only [Handle.weight, hv, and_false, if_false, Nat.add_zero] at h₁ h₂
      rw [h₁, h₂]
      exact halone
  · rw [howners k]
    exact ho.small k

/-- A handle lets its storage go, which is freed if nobody else has it. -/
theorem release (ho : Owned s) (hi : s.handles[i]? = some h) : ∃ t, s.release i = .ok t ∧
    Owned t ∧ t.handles = s.handles.set i { h with storage := none } := by
  rw [State.release, storageOf_eq hi]
  cases hv : h.storage with
  | none =>
      refine ⟨s, rfl, ho, ?_⟩
      obtain ⟨hlt, hget⟩ := List.getElem?_eq_some_iff.1 hi
      have hsame : ({ h with storage := none } : Handle) = s.handles[i] := by rw [hget, ← hv]
      rw [hsame, List.set_getElem_self]
  | some j =>
      have hheld : ∀ b k, (s.setStorage i none).held b k + Handle.weight b k h = s.held b k := by
        intro b k
        rw [held_setStorage hi, weight_none, Nat.add_zero]
      have hw : ∀ k, Handle.weight true k h + Handle.weight false k h =
          if some j = some k then 1 else 0 := fun k => hv ▸ weight_add h
      have howners : ∀ k, (s.setStorage i none).owners k + (if some j = some k then 1 else 0) =
          s.owners k := by
        intro k
        have h₁ := hheld true k
        have h₂ := hheld false k
        rw [State.owners, State.owners, ← hw k]
        omega
      have hj := howners j
      rw [if_pos rfl] at hj
      have hother : ∀ k, k ≠ j → (s.setStorage i none).owners k = s.owners k := by
        intro k hk
        have hk' := howners k
        rwa [if_neg fun h => hk (Option.some.inj h).symm] at hk'
      have halone : ∀ k, (s.setStorage i none).held true k = 0 ∨
          (s.setStorage i none).held true k = 1 ∧ (s.setStorage i none).held false k = 0 := by
        intro k
        have h₁ := hheld true k
        have h₂ := hheld false k
        have hk := ho.alone k
        omega
      have hhandles := congrArg State.handles (setStorage_handles (v := none) hi)
      obtain ⟨header, hheader, haccess, hfreed, hrefs⟩ := ho.access (t := s.setStorage i none)
        setStorage_storages (j := j) (by omega)
      have hlt : j < s.storages.length := (List.getElem?_eq_some_iff.1 hheader).1
      have hsmall := ho.small j
      dsimp only
      rw [State.fetchSub, haccess]
      dsimp only
      by_cases hone : header.refs = 1
      · rw [if_pos hone]
        refine ⟨_, rfl, ho.of_setHeader setStorage_storages hlt (.inr ⟨?_, ?_⟩) hother halone ?_,
          hhandles⟩
        · rw [hfreed]
          rfl
        · omega
        · omega
      · rw [if_neg hone]
        refine ⟨_, rfl, ho.of_setHeader setStorage_storages hlt (.inl ⟨hfreed, ?_, ?_⟩) hother
          halone ?_, hhandles⟩
        · dsimp only
          omega
        · omega
        · omega

end Owned

end MyEngine.Memory
