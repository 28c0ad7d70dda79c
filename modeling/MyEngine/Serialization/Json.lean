import Mathlib.Algebra.Group.Int.Defs
import Mathlib.Data.Rat.Defs
import MyEngine.Support.Assoc

/-!
# Serialization — Json

The documents of `Json::Value` and the JSON values they denote.

* `Json`: the tree a `Json::Value` holds, with the kinds of number the library tells apart.
* `Value`: a JSON value; a number is what it is equal to and an object is a map.
* `Value.merge`: what `PropertyContainer` documents of its merging.
* `JsonCpp`: what the library promises of its number tests.
-/

namespace MyEngine.Serialization

/-- A `std::string` and a `std::string_view`. -/
abbrev Text := List Char

/-- A `double`; a zero has no sign here. -/
inductive Double where
  | finite (x : ℚ)
  | infinite (negative : Bool)
  | nan
  deriving DecidableEq

/-- `Json::Value`; the order of the members is that of their insertion. -/
inductive Json where
  | null
  | int (i : Int64)
  | uint (n : UInt64)
  | real (x : Double)
  | boolean (b : Bool)
  | string (s : Text)
  | array (elements : List Json)
  | object (members : List (Text × Json))

abbrev Members := List (Text × Json)

inductive Value where
  | null
  | boolean (b : Bool)
  | number (x : Double)
  | string (s : Text)
  | array (elements : List Value)
  | object (members : Text → Option Value)

def Value.ofInt (i : Int) : Value := .number (.finite i)

/-! ### What a document denotes -/

mutual

@[grind =] def Json.denote : Json → Value
  | .null           => .null
  | .int i          => .ofInt i.toInt
  | .uint n         => .ofInt n.toNat
  | .real x         => .number x
  | .boolean b      => .boolean b
  | .string s       => .string s
  | .array elements => .array (Json.denoteElements elements)
  | .object members => .object fun key => (Json.denoteMembers members).lookup key

@[grind =] def Json.denoteElements : List Json → List Value
  | []              => []
  | j :: elements   => j.denote :: Json.denoteElements elements

@[grind =] def Json.denoteMembers : Members → List (Text × Value)
  | []                  => []
  | (key, j) :: members => (key, j.denote) :: Json.denoteMembers members

end

/-- The members as a map. -/
def denoteObject (members : Members) (key : Text) : Option Value :=
  (members.lookup key).map Json.denote

theorem Json.denoteElements_eq (elements : List Json) :
    denoteElements elements = elements.map denote := by
  induction elements with
  | nil => rfl
  | cons j elements ih => rw [denoteElements, ih, List.map_cons]

theorem Json.denoteMembers_eq (members : Members) :
    denoteMembers members = members.map fun member => (member.1, member.2.denote) := by
  induction members with
  | nil => rfl
  | cons member members ih => rw [denoteMembers, ih, List.map_cons]

@[simp] theorem Json.denote_array (elements : List Json) :
    (array elements).denote = .array (elements.map denote) := by
  rw [denote, denoteElements_eq]

@[simp] theorem Json.denote_object (members : Members) :
    (object members).denote = .object (denoteObject members) := by
  rw [denote, denoteMembers_eq]
  congr
  funext key
  exact Support.lookup_map denote key members

/-- Induction over a document, with the members of an object as pairs. -/
@[elab_as_elim]
theorem Json.induct {P : Json → Prop} (null : P .null) (int : ∀ i, P (.int i))
    (uint : ∀ n, P (.uint n)) (real : ∀ x, P (.real x)) (boolean : ∀ b, P (.boolean b))
    (string : ∀ s, P (.string s)) (array : ∀ elements, (∀ j ∈ elements, P j) → P (.array elements))
    (object : ∀ members : Members, (∀ member ∈ members, P member.2) → P (.object members))
    (j : Json) : P j :=
  @Json.rec P (fun elements => ∀ j ∈ elements, P j) (fun members => ∀ member ∈ members, P member.2)
    (fun member => P member.2) null int uint real boolean string array object
    (List.forall_mem_nil _) (fun _ _ hj h => List.forall_mem_cons.2 ⟨hj, h⟩)
    (List.forall_mem_nil _) (fun _ _ hm h => List.forall_mem_cons.2 ⟨hm, h⟩) (fun _ _ hj => hj) j

/-! ### Keys -/

mutual

/-- Every key of every object in the value satisfies `p`. -/
@[grind =] def Value.Keys (p : Text → Prop) : Value → Prop
  | .array elements => Value.KeysOfElements p elements
  | .object members => ∀ key, Value.KeysOfMember p key (members key)
  | .null | .boolean _ | .number _ | .string _ => True

@[grind =] def Value.KeysOfElements (p : Text → Prop) : List Value → Prop
  | []            => True
  | v :: elements => v.Keys p ∧ Value.KeysOfElements p elements

@[grind =] def Value.KeysOfMember (p : Text → Prop) (key : Text) : Option Value → Prop
  | none   => True
  | some v => p key ∧ v.Keys p

end

@[simp] theorem Value.keys_array {p : Text → Prop} {elements : List Value} :
    (array elements).Keys p ↔ ∀ v ∈ elements, v.Keys p := by
  rw [Keys]
  induction elements with
  | nil => simp [KeysOfElements]
  | cons v elements ih => rw [KeysOfElements, ih, List.forall_mem_cons]

@[simp] theorem Value.keys_object {p : Text → Prop} {members : Text → Option Value} :
    (object members).Keys p ↔ ∀ key v, members key = some v → p key ∧ v.Keys p := by
  rw [Keys]
  refine forall_congr' fun key => ?_
  cases members key with
  | none => simp [KeysOfMember]
  | some v => simp [KeysOfMember]

@[elab_as_elim]
theorem Value.induct {P : Value → Prop} (null : P .null) (boolean : ∀ b, P (.boolean b))
    (number : ∀ x, P (.number x)) (string : ∀ s, P (.string s))
    (array : ∀ elements, (∀ v ∈ elements, P v) → P (.array elements))
    (object : ∀ members : Text → Option Value, (∀ key, ∀ v ∈ members key, P v) →
      P (.object members))
    (v : Value) : P v :=
  @Value.rec P (fun elements => ∀ v ∈ elements, P v) (fun member => ∀ v ∈ member, P v) null boolean
    number string array object (List.forall_mem_nil _)
    (fun _ _ hv h => List.forall_mem_cons.2 ⟨hv, h⟩) nofun
    (fun _ hv _ h => Option.mem_some_iff.1 h ▸ hv) v

theorem Value.Keys.and {p q : Text → Prop} {v : Value} (hp : v.Keys p) (hq : v.Keys q) :
    v.Keys fun key => p key ∧ q key := by
  induction v using Value.induct with
  | null | boolean | number | string => trivial
  | array elements ih =>
      rw [keys_array] at hp hq ⊢
      exact fun v hv => ih v hv (hp v hv) (hq v hv)
  | object members ih =>
      rw [keys_object] at hp hq ⊢
      intro key v hv
      obtain ⟨hpkey, hpv⟩ := hp key v hv
      obtain ⟨hqkey, hqv⟩ := hq key v hv
      exact ⟨⟨hpkey, hqkey⟩, ih key v hv hpv hqv⟩

theorem Json.keys_object {p : Text → Prop} {members : Members} :
    (object members).denote.Keys p ↔
      ∀ key j, members.lookup key = some j → p key ∧ j.denote.Keys p := by
  rw [denote_object, Value.keys_object]
  refine ⟨fun h key j hj => h key _ ?_, fun h key v hv => ?_⟩
  · rw [denoteObject, hj, Option.map_some]
  · obtain ⟨j, hj, rfl⟩ := Option.map_eq_some_iff.1 hv
    exact h key j hj

/-! ### Merging -/

mutual

/-- Dictionaries are merged key by key and arrays appended to each other; anything else is
replaced. -/
@[grind =] def Value.merge : Value → Value → Value
  | .array elements, .array elements' => .array (elements ++ elements')
  | .object members, .object members' =>
      .object fun key => Value.mergeMember (members key) (members' key)
  | _, v => v
termination_by structural v => v

/-- What is absent is taken over. -/
@[grind =] def Value.mergeMember : Option Value → Option Value → Option Value
  | none, v          => v
  | some v, none     => some v
  | some v, some v'  => some (v.merge v')
termination_by structural v => v

end

/-! ### Numbers -/

def Double.integer? : Double → Option Int
  | finite x         => if x.den = 1 then some x.num else none
  | infinite _ | nan => none

/-- The integer that the number of the document is equal to. -/
def Json.integer? : Json → Option Int
  | int i  => some i.toInt
  | uint n => some n.toNat
  | real x => x.integer?
  | _      => none

theorem Json.denote_of_integer? {j : Json} {i : Int} (h : j.integer? = some i) :
    j.denote = .ofInt i := by
  cases j with
  | int n => exact Option.some.inj h ▸ rfl
  | uint n => exact Option.some.inj h ▸ rfl
  | real x =>
      cases x with
      | finite x =>
          rw [integer?, Double.integer?] at h
          split at h
          · next hden =>
            rw [← Option.some.inj h, Value.ofInt, Rat.coe_int_num_of_den_eq_one hden]
            rfl
          · cases h
      | infinite | nan => cases h
  | null | boolean | string | array | object => cases h

/-- The tests and readings of numbers: a test that holds makes its reading exact, every integer
passes the tests of its own kind, and only numbers pass any. -/
structure JsonCpp where
  isUInt : Json → Bool
  asUInt : Json → UInt32
  isInt : Json → Bool
  asInt : Json → Int32
  isUInt64 : Json → Bool
  asUInt64 : Json → UInt64
  isInt64 : Json → Bool
  asInt64 : Json → Int64
  isDouble : Json → Bool
  asDouble : Json → Double
  asUInt_eq : ∀ j, isUInt j = true → j.denote = .ofInt (asUInt j).toNat
  asInt_eq : ∀ j, isInt j = true → j.denote = .ofInt (asInt j).toInt
  asUInt64_eq : ∀ j, isUInt64 j = true → j.denote = .ofInt (asUInt64 j).toNat
  asInt64_eq : ∀ j, isInt64 j = true → j.denote = .ofInt (asInt64 j).toInt
  asDouble_real : ∀ x, asDouble (.real x) = x
  isUInt64_uint : ∀ n, isUInt64 (.uint n) = true
  isInt64_int : ∀ i, isInt64 (.int i) = true
  isDouble_real : ∀ x, isDouble (.real x) = true
  isDouble_number : ∀ j, isDouble j = true → ∃ x, j.denote = .number x

namespace JsonCpp

/-- The number of the document is an integer from `lo` up to `hi`. -/
def within (lo hi : Int) (j : Json) : Bool := j.integer?.any fun i => lo ≤ i && i < hi

theorem within_iff {lo hi : Int} {j : Json} :
    within lo hi j = true ↔ ∃ i, j.integer? = some i ∧ lo ≤ i ∧ i < hi := by
  rw [within]
  cases j.integer? with
  | none => simp
  | some i => simp

theorem denote_of_within {lo hi : Int} {j : Json} (h : within lo hi j = true) :
    j.denote = .ofInt (j.integer?.getD 0) ∧ lo ≤ j.integer?.getD 0 ∧ j.integer?.getD 0 < hi := by
  obtain ⟨i, hi, hlo, hhi⟩ := within_iff.1 h
  rw [hi]
  exact ⟨Json.denote_of_integer? hi, hlo, hhi⟩

/-- Every test holds where it can. -/
def standard : JsonCpp where
  isUInt := within 0 (2 ^ 32)
  asUInt j := UInt32.ofNat (j.integer?.getD 0).toNat
  isInt := within (-2 ^ 31) (2 ^ 31)
  asInt j := Int32.ofInt (j.integer?.getD 0)
  isUInt64 := within 0 (2 ^ 64)
  asUInt64 j := UInt64.ofNat (j.integer?.getD 0).toNat
  isInt64 := within (-2 ^ 63) (2 ^ 63)
  asInt64 j := Int64.ofInt (j.integer?.getD 0)
  isDouble
    | .int _ | .uint _ | .real _ => true
    | _                          => false
  asDouble
    | .int i  => .finite i.toInt
    | .uint n => .finite n.toNat
    | .real x => x
    | _       => .nan
  asUInt_eq j h := by
    obtain ⟨hdenote, hlo, hhi⟩ := denote_of_within h
    rw [hdenote, UInt32.toNat_ofNat_of_lt' (by simpa using (Int.toNat_lt hlo).2 hhi),
      Int.toNat_of_nonneg hlo]
  asInt_eq j h := by
    obtain ⟨hdenote, hlo, hhi⟩ := denote_of_within h
    rw [hdenote, Int32.toInt_ofInt_of_le hlo hhi]
  asUInt64_eq j h := by
    obtain ⟨hdenote, hlo, hhi⟩ := denote_of_within h
    rw [hdenote, UInt64.toNat_ofNat_of_lt' (by simpa using (Int.toNat_lt hlo).2 hhi),
      Int.toNat_of_nonneg hlo]
  asInt64_eq j h := by
    obtain ⟨hdenote, hlo, hhi⟩ := denote_of_within h
    rw [hdenote, Int64.toInt_ofInt_of_le hlo hhi]
  asDouble_real _ := rfl
  isUInt64_uint n := within_iff.2 ⟨n.toNat, rfl, Int.natCast_nonneg _, by
    exact_mod_cast n.toNat_lt⟩
  isInt64_int i := within_iff.2 ⟨i.toInt, rfl, i.le_toInt, i.toInt_lt⟩
  isDouble_real _ := rfl
  isDouble_number j h := by
    cases j with
    | int i => exact ⟨_, rfl⟩
    | uint n => exact ⟨_, rfl⟩
    | real x => exact ⟨_, rfl⟩
    | null | boolean | string | array | object => cases h

end JsonCpp

end MyEngine.Serialization
