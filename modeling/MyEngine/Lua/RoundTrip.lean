import Mathlib.Data.List.Forall2
import Mathlib.Data.List.Nodup
import MyEngine.Lua.RuntimeValue

/-!
# Lua — RoundTrip

A runtime value that is pushed to the stack of a Lua state and read from it.

* `Same`: what is read is equal to the value, member by member.
* `Kept`: the values for which a table keeps all that they have.
* `Kept.encoded`: each of them is pushed as a Lua value that is read back the same.
-/

namespace MyEngine.Lua

open Serialization Support

/-! ### Values that are kept -/

/-- The number is the value of a double. -/
def Representable (i : ℤ) : Prop :=
  ∃ significand exponent : ℕ, significand < 2 ^ 53 ∧ i.natAbs = significand * 2 ^ exponent

/-- No array is empty, nothing in the tree is null, the keys of a dictionary are distinct and not
empty, and numbers and sizes fit the types of Lua. -/
inductive Kept : RuntimeValue → Prop where
  | boolean (b : Bool) : Kept (.boolean b)
  | string (s : Text) : Kept (.string s)
  | float (x : Double) : Kept (.float x)
  | integer (i : IntegerValue) (hdouble : Representable i.toInt) (hint : i.toInt < 2 ^ 63) :
      Kept (.integer i)
  | collection (elements : List RuntimeValue) (hempty : elements ≠ [])
      (hsize : elements.length < 2 ^ 31) (h : ∀ element ∈ elements, Kept element) :
      Kept (.collection elements)
  | dictionary (fields : List (Text × RuntimeValue)) (hkeys : (fields.map Prod.fst).Nodup)
      (hempty : ∀ field ∈ fields, field.1 ≠ []) (h : ∀ field ∈ fields, Kept field.2) :
      Kept (.dictionary fields)

mutual

/-- How deep the containers are nested. -/
@[grind =] def depth : RuntimeValue → ℕ
  | .collection elements => depthElements elements
  | .dictionary fields   => depthFields fields
  | _                    => 0

@[grind =] def depthElements : List RuntimeValue → ℕ
  | []                  => 0
  | element :: elements => max (depth element + 1) (depthElements elements)

@[grind =] def depthFields : List (Text × RuntimeValue) → ℕ
  | []                   => 0
  | (_, value) :: fields => max (depth value + 1) (depthFields fields)

end

/-- What is read has the kind of the value, the same number, text or members, and each element of an
array at its index. -/
inductive Same (order : List LuaKey → List LuaKey) : RuntimeValue → LuaRuntimeValue → Prop where
  | boolean (b : Bool) : Same order (.boolean b) (.boolean b)
  | string (s : Text) : Same order (.string s) (.string s)
  | float (x : Double) : Same order (.float x) (.numeric x)
  | integer (i : IntegerValue) (x : Double) (n : Int64)
      (hread : (LuaRuntimeValue.numeric x).getInt64 = some n) (h : n.toInt = i.toInt) :
      Same order (.integer i) (.numeric x)
  | collection (elements : List RuntimeValue) (self : LuaValue) (keys : List ChildVariableKey)
      (hsize : (LuaRuntimeValue.array self keys).getSize = elements.length)
      (h : ∀ index element value, elements[index]? = some element →
        (LuaRuntimeValue.array self keys).getAt order index = some value →
          Same order element value) :
      Same order (.collection elements) (.array self keys)
  | dictionary (fields : List (Text × RuntimeValue)) (self : LuaValue)
      (keys : List ChildVariableKey)
      (hkeys : (LuaRuntimeValue.table self keys).getKeys.Perm (fields.map Prod.fst))
      (hread : ∀ field ∈ fields, (LuaRuntimeValue.table self keys).getValue order field.1 ≠ none)
      (h : ∀ field ∈ fields, ∀ value,
        (LuaRuntimeValue.table self keys).getValue order field.1 = some value →
          Same order field.2 value) :
      Same order (.dictionary fields) (.table self keys)

theorem nearestDouble_eq {i : ℤ} (h : Representable i) : nearestDouble i = i := by
  obtain ⟨significand, exponent, hlt, hi⟩ := h
  have hsize : i.natAbs.size ≤ 53 + exponent := by
    rw [Nat.size_le, hi, Nat.pow_add]
    exact Nat.mul_lt_mul_of_pos_right hlt (Nat.two_pow_pos exponent)
  have hdvd : 2 ^ (i.natAbs.size - 53) ∣ i.natAbs := by
    have hexponent : i.natAbs.size - 53 ≤ exponent := by omega
    refine Nat.dvd_trans (Nat.pow_dvd_pow 2 hexponent) ?_
    rw [hi]
    exact Nat.dvd_mul_left ..
  have hrest : i.natAbs % 2 ^ (i.natAbs.size - 53) = 0 := Nat.mod_eq_zero_of_dvd hdvd
  have hpos := Nat.two_pow_pos (i.natAbs.size - 53)
  rw [nearestDouble, hrest, if_neg (by omega), Nat.add_zero, Nat.div_mul_cancel hdvd,
    Int.sign_mul_natAbs]

theorem castInt64_finite {i : ℤ} (hlo : -2 ^ 63 ≤ i) (hhi : i < 2 ^ 63) :
    castInt64 (.finite i) = some (Int64.ofInt i) := by
  have hcast : (i : ℚ).num.tdiv (i : ℚ).den = i := by
    rw [Rat.num_intCast, Rat.den_intCast]
    exact Int.tdiv_one i
  rw [castInt64, hcast]
  exact if_pos ⟨hlo, hhi⟩

theorem toInt_toInt64 {n : UInt64} (h : n.toNat < 2 ^ 63) : n.toInt64.toInt = n.toNat :=
  BitVec.toInt_eq_toNat_of_lt (x := n.toBitVec) (by change 2 * n.toNat < 2 ^ 64; omega)

theorem getInt64_toInt {i : IntegerValue} (h : i.isSigned = true) :
    i.getInt64.toInt = i.toInt := by
  cases i with
  | int8 n | int16 n | int32 n | int64 n => simp [IntegerValue.getInt64, IntegerValue.toInt]
  | uint8 n | uint16 n | uint32 n | uint64 n => cases h

theorem getUint64_toNat {i : IntegerValue} (h : i.isSigned = false) :
    (i.getUint64.toNat : ℤ) = i.toInt := by
  cases i with
  | int8 n | int16 n | int32 n | int64 n => cases h
  | uint8 n | uint16 n | uint32 n | uint64 n => simp [IntegerValue.getUint64, IntegerValue.toInt]

/-- The integer that is pushed. -/
theorem pushed_toInt {i : IntegerValue} (h : i.toInt < 2 ^ 63) :
    (if i.isSigned then i.getInt64 else i.getUint64.toInt64).toInt = i.toInt := by
  split
  · next hsigned => exact getInt64_toInt hsigned
  · next hsigned =>
      have hnat := getUint64_toNat (Bool.not_eq_true _ ▸ hsigned)
      rw [← hnat] at h ⊢
      exact toInt_toInt64 (Int.ofNat_lt.1 h)

theorem same_integer {order : List LuaKey → List LuaKey} {i : IntegerValue}
    (hdouble : Representable i.toInt) (hint : i.toInt < 2 ^ 63) :
    Same order (.integer i) (makeValue order (.integer
      (if i.isSigned then i.getInt64 else i.getUint64.toInt64))) := by
  have hpushed := pushed_toInt hint
  set n := if i.isSigned then i.getInt64 else i.getUint64.toInt64 with hn
  have hlo : -2 ^ 63 ≤ n.toInt := n.le_toInt
  have hhi : n.toInt < 2 ^ 63 := n.toInt_lt
  refine .integer i _ (Int64.ofInt n.toInt) ?_ ?_
  · rw [hpushed, nearestDouble_eq hdouble, ← hpushed]
    exact castInt64_finite hlo hhi
  · rw [Int64.ofInt_toInt, hpushed]

/-! ### What is pushed -/

/-- Wherever there are slots for the value, it is pushed as `x`. -/
def Pushes (value : RuntimeValue) (x : LuaValue) : Prop :=
  ∀ l : LuaState, l.stack.length + 2 * depth value + 1 ≤ l.limit →
    pushRuntimeValue l value = .ok { l with stack := x :: l.stack }

theorem push_eq {l : LuaState} (x : LuaValue) (h : l.stack.length + 1 ≤ l.limit) :
    l.push x = .ok { l with stack := x :: l.stack } := if_pos h

theorem rawset_eq {value key table : LuaValue} {k : LuaKey} {below : List LuaValue} {limit : ℕ}
    (hkey : key.key? = some k) :
    LuaState.rawset ⟨value :: key :: table :: below, limit⟩ (below.length + 1) =
      ⟨settable table k value :: below, limit⟩ := by
  rw [LuaState.rawset]
  dsimp only
  rw [List.length_cons, Nat.sub_self, hkey]
  rfl

theorem arrayIndex_ofNat {i length : ℕ} (hi : i < length) (hlength : length < 2 ^ 63) :
    arrayIndex length (.integer (Int64.ofNat (i + 1))) = some i := by
  rw [arrayIndex, Int64.toInt_ofNat_of_lt (by omega), if_pos (by omega)]
  simp

theorem pushElements_eq {elements : List RuntimeValue} {xs : List LuaValue}
    (h : List.Forall₂ Pushes elements xs) (before below : List LuaValue) (limit : ℕ)
    (hroom : below.length + 2 * depthElements elements + 1 ≤ limit)
    (hsize : before.length + elements.length < 2 ^ 63) :
    pushElements ⟨.table (before ++ .replicate elements.length .nil) [] :: below, limit⟩
        (below.length + 1) before.length elements =
      .ok ⟨.table (before ++ xs) [] :: below, limit⟩ := by
  induction h generalizing before with
  | nil => rfl
  | @cons element x elements xs hpush _ ih =>
      rw [depthElements] at hroom
      rw [List.length_cons] at hsize
      have helement : depth element + 1 ≤ max (depth element + 1) (depthElements elements) :=
        Nat.le_max_left ..
      have hrest : depthElements elements ≤ max (depth element + 1) (depthElements elements) :=
        Nat.le_max_right ..
      rw [pushElements, push_eq _ (by simp only [List.length_cons]; omega)]
      change (pushRuntimeValue _ element >>= _) = _
      rw [hpush _ (by simp only [List.length_cons]; omega)]
      change pushElements (LuaState.rawset _ _) _ _ _ = _
      rw [rawset_eq rfl, settable]
      dsimp only
      rw [arrayIndex_ofNat (by simp) (by simp; omega)]
      dsimp only
      have hset :
          (before ++ List.replicate (elements.length + 1) LuaValue.nil).set before.length x =
            before ++ [x] ++ .replicate elements.length .nil := by
        rw [List.set_append_right _ _ (Nat.le_refl _), Nat.sub_self, List.replicate_succ,
          List.append_assoc]
        rfl
      have hnext := ih (before ++ [x]) (by omega) (by
        rw [List.length_append, List.length_singleton]
        omega)
      rw [List.length_append, List.length_singleton] at hnext
      rw [List.length_cons, hset, hnext, List.append_assoc]
      rfl

theorem put_of_notMem {key : LuaKey} {x : LuaValue} {hash : List (LuaKey × LuaValue)}
    (h : key ∉ hash.map Prod.fst) : put key x hash = hash ++ [(key, x)] := by
  induction hash with
  | nil => rfl
  | cons entry hash ih =>
      rw [List.map_cons, List.mem_cons, not_or] at h
      rw [put, if_neg (by simpa using h.1), ih h.2]
      rfl

/-- The hash part of a dictionary. -/
def entries (fields : List (Text × RuntimeValue)) (xs : List LuaValue) : List (LuaKey × LuaValue) :=
  (fields.map fun field => .string field.1).zip xs

theorem pushFields_eq {fields : List (Text × RuntimeValue)} {xs : List LuaValue}
    (h : List.Forall₂ (fun field x => Pushes field.2 x ∧ x.isNil = false) fields xs)
    (hash : List (LuaKey × LuaValue)) (below : List LuaValue) (limit : ℕ)
    (hroom : below.length + 2 * depthFields fields + 1 ≤ limit)
    (hkeys : (hash.map Prod.fst ++ fields.map fun field => LuaKey.string field.1).Nodup) :
    pushFields ⟨.table [] hash :: below, limit⟩ (below.length + 1) fields =
      .ok ⟨.table [] (hash ++ entries fields xs) :: below, limit⟩ := by
  induction h generalizing hash with
  | nil => rw [pushFields, entries, List.map_nil, List.zip_nil_left, List.append_nil]
  | @cons field x fields xs hpush _ ih =>
      obtain ⟨key, value⟩ := field
      rw [depthFields] at hroom
      have hvalue : depth value + 1 ≤ max (depth value + 1) (depthFields fields) :=
        Nat.le_max_left ..
      have hrest : depthFields fields ≤ max (depth value + 1) (depthFields fields) :=
        Nat.le_max_right ..
      rw [pushFields, push_eq _ (by simp only [List.length_cons]; omega)]
      change (pushRuntimeValue _ value >>= _) = _
      rw [hpush.1 _ (by simp only [List.length_cons]; omega)]
      change pushFields (LuaState.rawset _ _) _ _ = _
      rw [rawset_eq rfl, settable]
      have hnew : LuaKey.string key ∉ hash.map Prod.fst := by
        intro hmem
        exact (List.nodup_append.1 hkeys).2.2 _ hmem _ (List.mem_cons_self) rfl
      have hx : x.isNil = false := hpush.2
      dsimp only [arrayIndex]
      rw [hx, if_neg (by simp), put_of_notMem hnew]
      rw [ih (hash ++ [(LuaKey.string key, x)]) (by omega) (by simpa using hkeys),
        List.append_assoc]
      rfl

/-! ### What is read from an array -/

/-- The key of the element at index `i`. -/
def indexKey (i : ℕ) : ChildVariableKey := { index := Int32.ofNat (i + 1) }

section

variable {i : ℕ}

theorem indexKey_toInt (hi : i + 1 < 2 ^ 31) : (indexKey i).index.toInt = i + 1 := by
  rw [indexKey, Int32.toInt_ofNat_of_lt hi]
  rfl

theorem indexKey_ne (hi : i + 1 < 2 ^ 31) : (indexKey i).index ≠ invalidLuaIndex := by
  intro h
  have hint := indexKey_toInt hi
  rw [h] at hint
  have hmin : invalidLuaIndex.toInt = -2 ^ 31 := rfl
  omega

theorem indexKey_isIndexed (hi : i + 1 < 2 ^ 31) : (indexKey i).isIndexed = true :=
  decide_eq_true (indexKey_ne hi)

theorem makeFromStack_integer (i : ℕ) :
    ChildVariableKey.makeFromStack (.integer (Int64.ofNat (i + 1))) = indexKey i := by
  rw [ChildVariableKey.makeFromStack, indexKey]
  congr 1
  exact Int64.toInt32_ofNat

theorem indexKey_push (hi : i + 1 < 2 ^ 31) :
    (indexKey i).push = .integer (Int64.ofNat (i + 1)) := by
  rw [ChildVariableKey.push, if_pos (indexKey_isIndexed hi)]
  congr 1
  apply Int64.toInt.inj
  rw [Int32.toInt_toInt64, indexKey_toInt hi, Int64.toInt_ofNat_of_lt (by omega)]
  rfl

/-- Indices one after the other are the keys of an array. -/
theorem ascending_indexKeys (n start : ℕ) (hn : start + n < 2 ^ 31) {last : Int32}
    (hlast : last = invalidLuaIndex ∨ last.toInt ≤ start) :
    ascending last ((List.range' start n).map indexKey) = true := by
  induction n generalizing start last with
  | zero => rfl
  | succ n ih =>
      have hstart : start + 1 < 2 ^ 31 := by omega
      rw [List.range'_succ, List.map_cons, ascending, indexKey_isIndexed hstart, if_neg]
      · refine ih (start + 1) (by omega) (.inr ?_)
        rw [indexKey_toInt hstart]
        omega
      · intro h
        simp only [Bool.not_true, Bool.false_or, Bool.and_eq_true, decide_eq_true_eq,
          ne_eq] at h
        have hlt := Int32.lt_iff_toInt_lt.1 h.2
        rw [indexKey_toInt hstart] at hlt
        rcases hlast with hlast | hlast
        · exact h.1 hlast
        · omega

end

section

variable {order : List LuaKey → List LuaKey}

theorem nextKeys_array (horder : ∀ keys, (order keys).Perm keys) {xs : List LuaValue}
    (hxs : ∀ x ∈ xs, x.isNil = false) :
    (nextKeys order (.table xs [])).map ChildVariableKey.makeFromStack =
      (List.range' 0 xs.length).map indexKey := by
  have hall : ((List.range xs.length).filter fun i => xs[i]?.any (!·.isNil)) =
      List.range xs.length := by
    rw [List.filter_eq_self]
    intro i hi
    have hi' := List.mem_range.1 hi
    rw [List.getElem?_eq_getElem hi', Option.any_some, hxs _ (List.getElem_mem hi')]
    rfl
  have hnil : order [] = [] := (horder []).eq_nil
  rw [nextKeys, hall, List.map_nil, hnil, List.append_nil, List.map_map, List.range_eq_range']
  exact List.map_congr_left fun i _ => makeFromStack_integer i

theorem makeValue_array (horder : ∀ keys, (order keys).Perm keys) {xs : List LuaValue}
    (hxs : ∀ x ∈ xs, x.isNil = false) (hempty : xs ≠ []) (hsize : xs.length < 2 ^ 31) :
    makeValue order (.table xs []) =
      .array (.table xs []) ((List.range' 0 xs.length).map indexKey) := by
  rw [makeValue, nextKeys_array horder hxs]
  have hne : (List.range' 0 xs.length).map indexKey ≠ [] := by
    intro h
    have hlength := congrArg List.length h
    rw [List.length_map, List.length_range'] at hlength
    exact hempty (List.eq_nil_of_length_eq_zero hlength)
  have hascending := ascending_indexKeys xs.length 0 (by omega) (.inl rfl)
  rw [hascending, if_pos]
  simp [hne]

theorem child_array {xs : List LuaValue} {i : ℕ} {x : LuaValue} (hi : xs[i]? = some x)
    (hsize : xs.length < 2 ^ 31) : child (.table xs []) (indexKey i) = x := by
  have hlt : i < xs.length := (List.getElem?_eq_some_iff.1 hi).1
  have hi' : i + 1 < 2 ^ 31 := by omega
  have hkey : (indexKey i).isKey = true := by
    rw [ChildVariableKey.isKey, indexKey_isIndexed hi', Bool.true_or]
  rw [child, if_pos hkey, indexKey_push hi', gettable, arrayIndex_ofNat hlt (by omega)]
  dsimp only
  rw [hi]
  rfl

/-! ### What is read from a dictionary -/

theorem makeFromStack_entries {fields : List (Text × RuntimeValue)} {xs : List LuaValue}
    (hlength : fields.length = xs.length) :
    ((entries fields xs).map Prod.fst).map ChildVariableKey.makeFromStack =
      fields.map fun field => { name := field.1 } := by
  have hfst : (entries fields xs).map Prod.fst = fields.map fun field => .string field.1 := by
    rw [entries, List.map_fst_zip]
    rw [List.length_map]
    exact Nat.le_of_eq hlength
  rw [hfst, List.map_map]
  rfl

theorem makeValue_dictionary (horder : ∀ keys, (order keys).Perm keys)
    {fields : List (Text × RuntimeValue)} {xs : List LuaValue}
    (hlength : fields.length = xs.length) :
    ∃ keys, makeValue order (.table [] (entries fields xs)) =
        .table (.table [] (entries fields xs)) keys ∧
      keys.Perm (fields.map fun field => { name := field.1 }) := by
  have hperm := (horder ((entries fields xs).map Prod.fst)).map ChildVariableKey.makeFromStack
  rw [makeFromStack_entries hlength] at hperm
  refine ⟨_, ?_, hperm⟩
  rw [makeValue, nextKeys]
  simp only [List.length_nil, List.range_zero, List.filter_nil, List.map_nil, List.nil_append]
  rw [if_neg]
  -- the first key, where there is one, is a name
  intro h
  rw [Bool.and_eq_true, decide_eq_true_eq] at h
  obtain ⟨key, keys, hkeys⟩ := List.exists_cons_of_ne_nil h.1
  have hmem : key ∈ fields.map fun field => { name := field.1 : ChildVariableKey } :=
    hperm.mem_iff.1 (hkeys ▸ List.mem_cons_self)
  obtain ⟨field, -, rfl⟩ := List.mem_map.1 hmem
  have hascending := h.2
  rw [hkeys] at hascending
  cases hascending

theorem eqText_name (name str : Text) : ChildVariableKey.eqText { name } str = (name == str) := rfl

theorem getValue_name {name : Text} {keys : List ChildVariableKey} {self : LuaValue}
    (hkeys : ∀ key ∈ keys, key.isIndexed = false) (hname : { name } ∈ keys) :
    (LuaRuntimeValue.table self keys).getValue order name =
      some (makeChildValue order self { name }) := by
  rw [LuaRuntimeValue.getValue]
  cases hfind : keys.find? (·.eqText name) with
  | none =>
      have hne := List.find?_eq_none.1 hfind _ hname
      rw [eqText_name, beq_self_eq_true] at hne
      exact absurd rfl hne
  | some key =>
      have hindexed := hkeys key (List.mem_of_find?_eq_some hfind)
      have heq := List.find?_some hfind
      rw [ChildVariableKey.eqText, if_neg (by rw [hindexed]; simp)] at heq
      obtain ⟨index, other⟩ := key
      obtain rfl : other = name := eq_of_beq heq
      obtain rfl : index = invalidLuaIndex := by simpa [ChildVariableKey.isIndexed] using hindexed
      rfl

theorem nodup_string {fields : List (Text × RuntimeValue)} (h : (fields.map Prod.fst).Nodup) :
    (fields.map fun field => LuaKey.string field.1).Nodup := by
  have hinj : Function.Injective LuaKey.string := fun _ _ h => LuaKey.string.inj h
  have hnodup := List.Nodup.map hinj h
  rwa [List.map_map] at hnodup

theorem child_entries {fields : List (Text × RuntimeValue)} {xs : List LuaValue}
    (hkeys : (fields.map Prod.fst).Nodup) {i : ℕ} {field : Text × RuntimeValue} {x : LuaValue}
    (hfield : fields[i]? = some field) (hx : xs[i]? = some x) (hempty : field.1 ≠ []) :
    child (.table [] (entries fields xs)) { name := field.1 } = x := by
  have hlookup : (entries fields xs).lookup (.string field.1) = some x := by
    refine lookup_zip ?_ ?_ hx
    · exact nodup_string hkeys
    · rw [List.getElem?_map, hfield]
      rfl
  have hkey : ChildVariableKey.isKey { name := field.1 } = true := by
    rw [ChildVariableKey.isKey, decide_eq_true hempty, Bool.or_true]
  rw [child, if_pos hkey, gettable]
  change ((entries fields xs).lookup (.string field.1)).getD .nil = x
  rw [hlookup]
  rfl

/-! ### There and back -/

/-- What is pushed for the value is not nil, and is read as the value. -/
def Encodes (order : List LuaKey → List LuaKey) (value : RuntimeValue) (x : LuaValue) : Prop :=
  Pushes value x ∧ x.isNil = false ∧ Same order value (makeValue order x)

theorem Encodes.leaf {value : RuntimeValue} {x : LuaValue} (hdepth : depth value = 0)
    (hpush : ∀ l : LuaState, pushRuntimeValue l value = l.push x) (hnil : x.isNil = false)
    (hsame : Same order value (makeValue order x)) : Encodes order value x := by
  refine ⟨fun l hroom => ?_, hnil, hsame⟩
  rw [hdepth] at hroom
  rw [hpush, push_eq x hroom]

theorem exists_getElem? {α β : Type} {R : α → β → Prop} {l : List α} {l' : List β}
    (h : List.Forall₂ R l l') {i : ℕ} {b : β} (hb : l'[i]? = some b) :
    ∃ a, l[i]? = some a ∧ R a b := by
  induction h generalizing i with
  | nil => cases hb
  | @cons a _ l l' hr _ ih =>
      cases i with
      | zero =>
          obtain rfl := Option.some.inj hb
          exact ⟨a, rfl, hr⟩
      | succ i => exact ih hb

theorem Encodes.collection (horder : ∀ keys, (order keys).Perm keys) {elements : List RuntimeValue}
    {xs : List LuaValue} (h : List.Forall₂ (Encodes order) elements xs) (hempty : elements ≠ [])
    (hsize : elements.length < 2 ^ 31) :
    Encodes order (.collection elements) (.table xs []) := by
  have hlength : elements.length = xs.length := h.length_eq
  refine ⟨fun l hroom => ?_, rfl, ?_⟩
  · rw [depth] at hroom
    have hnarr : (Int32.ofNat elements.length).toInt.toNat = elements.length := by
      rw [Int32.toInt_ofNat_of_lt hsize, Int.toNat_natCast]
    have hpush := pushElements_eq (h.imp fun _ _ h => h.1) [] l.stack l.limit (by omega)
      (by rw [List.length_nil]; omega)
    rw [pushRuntimeValue, push_eq _ (by omega), createtable, hnarr]
    exact hpush
  · have hxs : ∀ x ∈ xs, x.isNil = false := by
      intro x hx
      obtain ⟨i, hi⟩ := List.getElem?_of_mem hx
      obtain ⟨_, -, hencodes⟩ := exists_getElem? h hi
      exact hencodes.2.1
    have hne : xs ≠ [] := by
      rintro rfl
      exact hempty (List.eq_nil_of_length_eq_zero hlength)
    have hsize' : xs.length < 2 ^ 31 := hlength ▸ hsize
    rw [makeValue_array horder hxs hne hsize']
    refine .collection elements _ _ ?_ fun i element value helement hvalue => ?_
    · rw [LuaRuntimeValue.getSize, List.length_map, List.length_range', hlength]
    · have hi : i < xs.length := hlength ▸ (List.getElem?_eq_some_iff.1 helement).1
      obtain ⟨_, helement', hencodes⟩ := exists_getElem? h (List.getElem?_eq_getElem hi)
      obtain rfl := Option.some.inj (helement.symm.trans helement')
      have hkey : ((List.range' 0 xs.length).map indexKey)[i]? = some (indexKey i) := by
        rw [List.getElem?_map, List.getElem?_range' hi, Nat.one_mul, Nat.zero_add]
        rfl
      rw [LuaRuntimeValue.getAt, hkey, Option.map_some, makeChildValue,
        child_array (List.getElem?_eq_getElem hi) hsize'] at hvalue
      exact Option.some.inj hvalue ▸ hencodes.2.2

theorem Encodes.dictionary (horder : ∀ keys, (order keys).Perm keys)
    {fields : List (Text × RuntimeValue)} {xs : List LuaValue}
    (h : List.Forall₂ (fun field => Encodes order field.2) fields xs)
    (hkeys : (fields.map Prod.fst).Nodup) (hempty : ∀ field ∈ fields, field.1 ≠ []) :
    Encodes order (.dictionary fields) (.table [] (entries fields xs)) := by
  have hlength : fields.length = xs.length := h.length_eq
  refine ⟨fun l hroom => ?_, rfl, ?_⟩
  · rw [depth] at hroom
    have hpush := pushFields_eq (h.imp fun _ _ h => ⟨h.1, h.2.1⟩) [] l.stack l.limit (by omega)
      (nodup_string hkeys)
    rw [pushRuntimeValue, push_eq _ (by omega)]
    exact hpush
  · obtain ⟨keys, hmake, hperm⟩ := makeValue_dictionary horder hlength
    have hindexed : ∀ key ∈ keys, key.isIndexed = false := by
      intro key hkey
      obtain ⟨field, -, rfl⟩ := List.mem_map.1 (hperm.mem_iff.1 hkey)
      rfl
    have hvalue : ∀ field ∈ fields,
        (LuaRuntimeValue.table (.table [] (entries fields xs)) keys).getValue order field.1 =
          some (makeChildValue order (.table [] (entries fields xs)) { name := field.1 }) :=
      fun field hfield => getValue_name hindexed (hperm.mem_iff.2 (List.mem_map_of_mem hfield))
    rw [hmake]
    refine .dictionary fields _ _ ?_ (fun field hfield => ?_) fun field hfield value hread => ?_
    · have hnames := hperm.map ChildVariableKey.asString
      rw [List.map_map] at hnames
      exact hnames
    · rw [hvalue field hfield]
      exact Option.some_ne_none _
    · obtain ⟨i, hi⟩ := List.getElem?_of_mem hfield
      have hlt : i < xs.length := hlength ▸ (List.getElem?_eq_some_iff.1 hi).1
      obtain ⟨_, hi', hencodes⟩ := exists_getElem? h (List.getElem?_eq_getElem hlt)
      obtain rfl := Option.some.inj (hi.symm.trans hi')
      rw [hvalue field hfield, makeChildValue,
        child_entries hkeys hi (List.getElem?_eq_getElem hlt) (hempty field hfield)] at hread
      exact Option.some.inj hread ▸ hencodes.2.2

/-- Members that have encodings, side by side with them. -/
theorem exists_forall₂ {α : Type} {R : α → LuaValue → Prop} {l : List α}
    (h : ∀ a ∈ l, ∃ x, R a x) : ∃ xs, List.Forall₂ R l xs := by
  induction l with
  | nil => exact ⟨[], .nil⟩
  | cons a l ih =>
      obtain ⟨x, hx⟩ := h a List.mem_cons_self
      obtain ⟨xs, hxs⟩ := ih fun a ha => h a (List.mem_cons_of_mem _ ha)
      exact ⟨x :: xs, .cons hx hxs⟩

theorem Kept.encoded (horder : ∀ keys, (order keys).Perm keys) {value : RuntimeValue}
    (h : Kept value) : ∃ x, Encodes order value x := by
  induction h with
  | boolean b => exact ⟨_, .leaf rfl (fun _ => rfl) rfl (.boolean b)⟩
  | string s => exact ⟨_, .leaf rfl (fun _ => rfl) rfl (.string s)⟩
  | float x => exact ⟨_, .leaf rfl (fun _ => rfl) rfl (.float x)⟩
  | integer i hdouble hint =>
      exact ⟨_, .leaf rfl (fun _ => rfl) rfl (same_integer hdouble hint)⟩
  | collection elements hempty hsize _ ih =>
      obtain ⟨xs, hxs⟩ := exists_forall₂ ih
      exact ⟨_, .collection horder hxs hempty hsize⟩
  | dictionary fields hkeys hempty _ ih =>
      obtain ⟨xs, hxs⟩ := exists_forall₂ ih
      exact ⟨_, .dictionary horder hxs hkeys hempty⟩

end

/-! ### What is not kept -/

section

variable {order : List LuaKey → List LuaKey}

end

/-- `n` arrays, one in the other. -/
@[grind =] def nested : ℕ → RuntimeValue
  | 0     => .boolean true
  | n + 1 => .collection [nested n]

end MyEngine.Lua
