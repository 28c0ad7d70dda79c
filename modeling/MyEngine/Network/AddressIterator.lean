import Mathlib.Algebra.Group.Nat.Defs
import Mathlib.Order.Basic

/-!
# Network — AddressIterator

The iterators of `Address`, of `address_impl.cpp`.  An address holds an `IAddress`, which has a
number of endpoints.

* `preIncrement_eq`: an iterator is the end when it is incremented at the number of endpoints, one
  behind the last of them.
* `deref_eq`: at that place `operator*` is null.
* `not_visits_post`: the iterator that is incremented by `operator++(int)` stays where it is.
* `visits_iff`: the addresses whose endpoints are visited.
-/

namespace MyEngine.Network

variable {E : Type*}

/-- `getAt` may be null. -/
structure IAddress (E : Type*) where
  getSize : ℕ
  getAt : ℕ → Option E
  size_lt : getSize < 2 ^ 64

/-- An `InetAddress` is its only endpoint. -/
def InetAddress (endpoint : E) : IAddress E where
  getSize := 1
  getAt i := if i ≠ 0 then none else some endpoint
  size_lt := Nat.one_lt_two_pow (Nat.succ_ne_zero 63)

/-- `m_address`. -/
abbrev Address (E : Type*) := Option (IAddress E)

namespace Address

def getSize (address : Address E) : ℕ := address.elim 0 IAddress.getSize

/-- `operator[]`. -/
def get (address : Address E) (i : ℕ) : Option E :=
  match address with
  | none           => none
  | some m_address => if address.getSize ≤ i then none else m_address.getAt i

end Address

/-- `address` is null or one of the objects that are iterated. -/
structure AddressIterator where
  address : Option ℕ := none
  index : ℕ := 2 ^ 64 - 1
  deriving DecidableEq, Repr

/-- `operator++()` and `operator++(int)`. -/
inductive Increment where
  | pre
  | post
  deriving DecidableEq, Repr

namespace AddressIterator

section Code
variable (addresses : ℕ → Address E) (this : ℕ) (it : AddressIterator)

/-- `Address::begin`. -/
def begin : AddressIterator :=
  match addresses this with
  | none           => {}
  | some m_address => if m_address.getSize = 0 then {} else ⟨some this, 0⟩

/-- `Address::end`. -/
def «end» : AddressIterator := {}

/-- `operator++()`; there is nothing to ask for its size at the end. -/
def preIncrement : Option AddressIterator :=
  it.address.map fun address =>
    if it.index = (addresses address).getSize then «end»
    else { it with index := (it.index + 1) % 2 ^ 64 }

/-- What is returned, and where the iterator is then. -/
def increment : Increment → Option (AddressIterator × AddressIterator)
  | .pre  => (it.preIncrement addresses).map fun next => (next, next)
  -- It is the copy that is incremented.
  | .post => (it.preIncrement addresses).map fun copy => (copy, it)

/-- `operator*`. -/
def deref : Option E := it.address.bind fun address => (addresses address).get it.index

end Code

/-! ### What is visited -/

section Visits
variable {addresses : ℕ → Address E} {this i : ℕ} {endpoints : List E} {it : AddressIterator}

/-- The address has these endpoints. -/
structure Holds (addresses : ℕ → Address E) (this : ℕ) (endpoints : List E) : Prop where
  size : (addresses this).getSize = endpoints.length
  get : ∀ i, ∀ m_address ∈ addresses this, i < endpoints.length →
    m_address.getAt i = endpoints[i]?

/-- From the iterator on, the endpoints are visited one after the other, and then it is the end.
Before each step it is at one of them, and what the step returns is the place it goes to or, with
`operator++(int)`, the one it comes from. -/
def Visits (addresses : ℕ → Address E) (op : Increment) : AddressIterator → List E → Prop
  | it, []                    => it = «end»
  | it, endpoint :: endpoints =>
      it ≠ «end» ∧ it.deref addresses = some endpoint ∧ ∃ next,
        it.increment addresses op =
          some (match op with | .pre => next | .post => it, next) ∧
        Visits addresses op next endpoints

theorem Holds.lt (h : Holds addresses this endpoints) : endpoints.length < 2 ^ 64 := by
  rw [← h.size]
  cases addresses this with
  | none => exact Nat.two_pow_pos 64
  | some m_address => exact m_address.size_lt

theorem preIncrement_eq (h : Holds addresses this endpoints) (hi : i ≤ endpoints.length) :
    preIncrement addresses ⟨some this, i⟩ =
      some (if i = endpoints.length then «end» else ⟨some this, i + 1⟩) := by
  rw [preIncrement, Option.map_some, h.size]
  split
  · rfl
  · next hne =>
      have hlt : i + 1 < 2 ^ 64 := Nat.lt_of_le_of_lt (Nat.lt_of_le_of_ne hi hne) h.lt
      dsimp only
      rw [Nat.mod_eq_of_lt hlt]

/-- `operator*` is an endpoint, or null at the place behind the last one, which is not the end. -/
theorem deref_eq (h : Holds addresses this endpoints) (i : ℕ) :
    deref addresses ⟨some this, i⟩ = endpoints[i]? := by
  have hsize := h.size
  have hget := h.get i
  rw [deref, Option.bind_some]
  cases haddress : addresses this with
  | none =>
      rw [haddress] at hsize
      exact (List.getElem?_eq_none (Nat.le_trans (Nat.le_of_eq hsize.symm) (Nat.zero_le i))).symm
  | some m_address =>
      rw [haddress] at hsize
      rw [Address.get]
      split
      · next hle => exact (List.getElem?_eq_none (Nat.le_trans (Nat.le_of_eq hsize.symm) hle)).symm
      · next hlt =>
          refine hget m_address haddress ?_
          exact Nat.lt_of_lt_of_eq (Nat.lt_of_not_le hlt) hsize

/-- With `operator++()` the iterator is not the end behind the last endpoint. -/
theorem not_visits_pre (h : Holds addresses this endpoints) {rest : List E}
    (hi : i + rest.length = endpoints.length) :
    ¬ Visits addresses .pre ⟨some this, i⟩ rest := by
  induction rest generalizing i with
  | nil => exact fun hend => nomatch hend
  | cons endpoint rest ih =>
      rw [List.length_cons] at hi
      rintro ⟨-, -, next, hincrement, hvisits⟩
      rw [increment, preIncrement_eq h (by omega), if_neg (by omega)] at hincrement
      obtain rfl := (Prod.mk.inj (Option.some.inj hincrement)).1
      exact ih (by omega) hvisits

/-- With `operator++(int)` the iterator does not leave its place. -/
theorem not_visits_post {rest : List E} : ¬ Visits addresses .post ⟨some this, i⟩ rest := by
  cases rest with
  | nil => exact fun hend => nomatch hend
  | cons endpoint rest =>
      rintro ⟨-, -, next, hincrement, -⟩
      simp only [increment, preIncrement, Option.map_some, Option.some.injEq,
        Prod.mk.injEq] at hincrement
      obtain ⟨hcopy, -⟩ := hincrement
      split at hcopy
      · cases hcopy
      · next hne =>
          -- the index of the copy is another one
          have hindex := congrArg AddressIterator.index hcopy
          dsimp only at hindex
          by_cases hlast : i + 1 < 2 ^ 64
          · rw [Nat.mod_eq_of_lt hlast] at hindex
            exact absurd hindex (Nat.succ_ne_self i)
          · omega

/-- **The endpoints of an address** are visited, with either of the operators, when there are none,
and in no other case. -/
theorem visits_iff (h : Holds addresses this endpoints) (op : Increment) :
    Visits addresses op (begin addresses this) endpoints ↔ endpoints = [] := by
  constructor
  · intro hvisits
    by_contra hne
    have hbegin : begin addresses this = ⟨some this, 0⟩ := by
      have hsize := h.size
      have hpos : endpoints.length ≠ 0 := fun hzero => hne (List.length_eq_zero_iff.1 hzero)
      rw [begin]
      cases haddress : addresses this with
      | none =>
          rw [haddress] at hsize
          exact absurd hsize.symm hpos
      | some m_address =>
          rw [haddress] at hsize
          exact if_neg fun hzero => hpos (hsize.symm.trans hzero)
    rw [hbegin] at hvisits
    cases op with
    | pre => exact not_visits_pre h (Nat.zero_add _) hvisits
    | post => exact not_visits_post hvisits
  · rintro rfl
    have hsize := h.size
    rw [Visits, begin]
    cases haddress : addresses this with
    | none => rfl
    | some m_address =>
        rw [haddress] at hsize
        exact if_pos hsize

/-- An address that is not resolved has no endpoints. -/
theorem visits_iff_unresolved :
    Visits (fun _ => (none : Address ℕ)) .pre (begin (fun _ => (none : Address ℕ)) 0) [] ↔
      ([] : List ℕ) = [] := by
  have hholds : Holds (fun _ => (none : Address ℕ)) 0 [] :=
    ⟨rfl, fun i _ _ hi => absurd hi (Nat.not_lt_zero i)⟩
  exact visits_iff hholds .pre

def inet : ℕ → Address ℕ := fun _ => some (InetAddress 80)

/-- The one endpoint of an `InetAddress` is followed by a null pointer, and by no other place when
the iterator is incremented by `operator++(int)`. -/
theorem not_visits_inet :
    Holds inet 0 [80] ∧ ¬ Visits inet .pre (begin inet 0) [80] ∧
      ¬ Visits inet .post (begin inet 0) [80] := by
  have hholds : Holds inet 0 [80] := by
    refine ⟨rfl, ?_⟩
    intro i m_address haddress hi
    obtain rfl := Option.some.inj haddress
    obtain rfl : i = 0 := by simpa using hi
    rfl
  exact ⟨hholds, not_visits_pre hholds rfl, not_visits_post⟩

end Visits

end AddressIterator

end MyEngine.Network
