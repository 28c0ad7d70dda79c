import Mathlib.Algebra.Order.Ring.Int
import MyEngine.Serialization.NativeContainer

/-!
# Serialization — AssignInteger

What an integer is after a number or a text has been assigned to it.

* `IntegerValue.holds`: the numbers of a type.
* `IntegerValue.cut`: the number that is left of another one by the casts to the type.
* `cut_getInt64`, `cut_getUint64`: the 64 bits in between lose nothing more.
* `assign_integer_iff`: which sources are assigned as the number they are, or refused.
-/

namespace MyEngine.Serialization

open Network (isdigit decimal)

/-! ### The numbers of a type -/

theorem toInt_toInt64 (x : UInt64) : x.toInt64.toInt = (x.toNat : ℤ).bmod (2 ^ 64) :=
  x.toBitVec.toInt_eq_toNat_bmod

theorem toNat_toUInt64 (x : Int64) : (x.toUInt64.toNat : ℤ) = x.toInt % 2 ^ 64 := by
  have hx : x.toInt = (x.toUInt64.toNat : ℤ).bmod (2 ^ 64) := x.toBitVec.toInt_eq_toNat_bmod
  have hlt := x.toUInt64.toNat_lt
  rw [hx, Int.bmod_def]
  split <;> omega

namespace IntegerValue

def bits (i : IntegerValue) : ℕ := 8 * i.getBitsCount

/-- The numbers that a value of the same type can be. -/
def holds (i : IntegerValue) (v : ℤ) : Prop :=
  if i.isSigned then -2 ^ (i.bits - 1) ≤ v ∧ v < 2 ^ (i.bits - 1) else 0 ≤ v ∧ v < 2 ^ i.bits

/-- What the casts to the type leave of a number. -/
def cut (i : IntegerValue) (v : ℤ) : ℤ :=
  if i.isSigned then v.bmod (2 ^ i.bits) else v % 2 ^ i.bits

theorem holds_toInt (i : IntegerValue) : i.holds i.toInt := by
  cases i with
  | int8 x => exact ⟨x.le_toInt, x.toInt_lt⟩
  | int16 x => exact ⟨x.le_toInt, x.toInt_lt⟩
  | int32 x => exact ⟨x.le_toInt, x.toInt_lt⟩
  | int64 x => exact ⟨x.le_toInt, x.toInt_lt⟩
  | uint8 x => exact ⟨Int.natCast_nonneg _, Int.ofNat_lt.2 x.toNat_lt⟩
  | uint16 x => exact ⟨Int.natCast_nonneg _, Int.ofNat_lt.2 x.toNat_lt⟩
  | uint32 x => exact ⟨Int.natCast_nonneg _, Int.ofNat_lt.2 x.toNat_lt⟩
  | uint64 x => exact ⟨Int.natCast_nonneg _, Int.ofNat_lt.2 x.toNat_lt⟩

theorem bits_pos (i : IntegerValue) : 0 < i.bits := by
  cases i <;> exact Nat.succ_pos _

theorem holds_zero (i : IntegerValue) : i.holds 0 := by
  have hpos : ∀ n : ℕ, (0 : ℤ) < 2 ^ n := fun n => Int.pow_pos (by decide)
  unfold holds
  split
  · exact ⟨Int.neg_nonpos_of_nonneg (hpos _).le, hpos _⟩
  · exact ⟨Int.le_refl 0, hpos _⟩

/-- The casts keep the numbers of the type and no others. -/
theorem cut_eq_self_iff (i : IntegerValue) (v : ℤ) : i.cut v = v ↔ i.holds v := by
  unfold cut holds
  split
  · have hpow : 2 ^ i.bits = 2 * 2 ^ (i.bits - 1) := by
      rw [← Nat.pow_succ', Nat.succ_eq_add_one, Nat.sub_add_cancel i.bits_pos]
    rw [Int.bmod_eq_iff (Nat.two_pow_pos _), hpow]
    push_cast
    rw [Int.sub_self]
    constructor
    · rintro ⟨hle, hlt, -⟩
      omega
    · intro h
      refine ⟨?_, ?_, Int.dvd_zero _⟩ <;> omega
  · constructor
    · intro h
      rw [← h]
      have hpos : (0 : ℤ) < 2 ^ i.bits := Int.pow_pos (by decide)
      exact ⟨Int.emod_nonneg _ hpos.ne', Int.emod_lt_of_pos _ hpos⟩
    · intro h
      exact Int.emod_eq_of_lt h.1 h.2

theorem natCast_mod_two_pow (a n : ℕ) : ((a % 2 ^ n : ℕ) : ℤ) = (a : ℤ) % 2 ^ n := by
  push_cast
  rfl

/-- Two casts down are as the second one. -/
theorem emod_of_toUInt64 (value : Int64) {n : ℕ} (hn : n ≤ 64) :
    ((value.toUInt64.toNat % 2 ^ n : ℕ) : ℤ) = value.toInt % 2 ^ n := by
  have hdvd : (2 ^ n : ℤ) ∣ 2 ^ 64 := mod_cast Nat.pow_dvd_pow 2 hn
  rw [natCast_mod_two_pow, toNat_toUInt64, Int.emod_emod_of_dvd _ hdvd]

theorem toInt_setInt64 (i : IntegerValue) (value : Int64) :
    (i.setInt64 value).toInt = i.cut value.toInt := by
  cases i with
  | int8 _ => exact value.toInt_toInt8
  | int16 _ => exact value.toInt_toInt16
  | int32 _ => exact value.toInt_toInt32
  | int64 x => exact ((cut_eq_self_iff (int64 x) _).2 (int64 value).holds_toInt).symm
  | uint8 _ =>
      change (value.toUInt64.toUInt8.toNat : ℤ) = value.toInt % 2 ^ 8
      rw [UInt64.toNat_toUInt8, emod_of_toUInt64 value (by decide)]
  | uint16 _ =>
      change (value.toUInt64.toUInt16.toNat : ℤ) = value.toInt % 2 ^ 16
      rw [UInt64.toNat_toUInt16, emod_of_toUInt64 value (by decide)]
  | uint32 _ =>
      change (value.toUInt64.toUInt32.toNat : ℤ) = value.toInt % 2 ^ 32
      rw [UInt64.toNat_toUInt32, emod_of_toUInt64 value (by decide)]
  | uint64 _ => exact toNat_toUInt64 value

/-- The casts depend on no more than 64 bits. -/
theorem cut_congr (i : IntegerValue) {v v' : ℤ} (h : v % 2 ^ 64 = v' % 2 ^ 64) :
    i.cut v = i.cut v' := by
  have hle : i.bits ≤ 64 := by cases i <;> exact Nat.le_of_ble_eq_true rfl
  have hdvd : (2 ^ i.bits : ℤ) ∣ 2 ^ 64 := mod_cast Nat.pow_dvd_pow 2 hle
  have hmod : v % 2 ^ i.bits = v' % 2 ^ i.bits := by
    rw [← Int.emod_emod_of_dvd v hdvd, h, Int.emod_emod_of_dvd v' hdvd]
  unfold cut
  split
  · rw [Int.bmod_def, Int.bmod_def]
    push_cast
    rw [hmod]
  · exact hmod

theorem toInt_setUint64 (i : IntegerValue) (value : UInt64) :
    (i.setUint64 value).toInt = i.cut value.toNat := by
  have hset : i.setUint64 value = i.setInt64 value.toInt64 := by cases i <;> rfl
  rw [hset, toInt_setInt64, toInt_toInt64]
  exact i.cut_congr Int.bmod_emod

theorem toInt_getInt64 (j : IntegerValue) : j.getInt64.toInt = j.toInt.bmod (2 ^ 64) := by
  have hself : ∀ v : ℤ, -2 ^ 63 ≤ v → v < 2 ^ 63 → v = v.bmod (2 ^ 64) := fun v hle hlt =>
    (Int.bmod_eq_of_le (by omega) (by omega)).symm
  cases j with
  | int8 x =>
      have hle := x.le_toInt
      have hlt := x.toInt_lt
      exact x.toInt_toInt64.trans (hself _ (by omega) (by omega))
  | int16 x =>
      have hle := x.le_toInt
      have hlt := x.toInt_lt
      exact x.toInt_toInt64.trans (hself _ (by omega) (by omega))
  | int32 x =>
      have hle := x.le_toInt
      have hlt := x.toInt_lt
      exact x.toInt_toInt64.trans (hself _ (by omega) (by omega))
  | int64 x => exact hself _ x.le_toInt x.toInt_lt
  | uint8 x | uint16 x | uint32 x | uint64 x => exact toInt_toInt64 _

theorem toNat_getUint64 (j : IntegerValue) : (j.getUint64.toNat : ℤ) = j.toInt % 2 ^ 64 := by
  have hself : ∀ v : ℕ, v < 2 ^ 64 → (v : ℤ) = v % 2 ^ 64 := fun v hlt => by omega
  cases j with
  | int8 x => exact (toNat_toUInt64 _).trans (congrArg (· % 2 ^ 64) x.toInt_toInt64)
  | int16 x => exact (toNat_toUInt64 _).trans (congrArg (· % 2 ^ 64) x.toInt_toInt64)
  | int32 x => exact (toNat_toUInt64 _).trans (congrArg (· % 2 ^ 64) x.toInt_toInt64)
  | int64 x => exact toNat_toUInt64 x
  | uint8 x => exact hself _ x.toUInt64.toNat_lt
  | uint16 x => exact hself _ x.toUInt64.toNat_lt
  | uint32 x => exact hself _ x.toUInt64.toNat_lt
  | uint64 x => exact hself _ x.toNat_lt

/-- **A number through the 64 bits** of its sign comes out as by the casts of the destination. -/
theorem cut_getInt64 (i j : IntegerValue) : i.cut j.getInt64.toInt = i.cut j.toInt := by
  rw [toInt_getInt64]
  exact i.cut_congr Int.bmod_emod

theorem cut_getUint64 (i j : IntegerValue) : i.cut j.getUint64.toNat = i.cut j.toInt := by
  rw [toNat_getUint64]
  exact i.cut_congr (Int.emod_emod_of_dvd _ (Int.dvd_refl _))

end IntegerValue

/-! ### Texts -/

/-- The integer that the whole of a text writes: digits, behind a minus sign or not. -/
def decimalInteger (str : Text) : Option ℤ :=
  match str with
  | '-' :: digits => if digits ≠ [] ∧ digits.all isdigit then some (-decimal digits) else none
  | digits        => if digits ≠ [] ∧ digits.all isdigit then some (decimal digits) else none

theorem takeWhile_of_all {digits : Text} (h : digits.all isdigit) :
    digits.takeWhile isdigit = digits :=
  List.takeWhile_eq_self_iff.2 (List.all_eq_true.1 h)

/-- `from_chars` reads what it can, the whole of an integer. -/
theorem fromChars_of_decimalInteger {str : Text} {v : ℤ} (h : decimalInteger str = some v) :
    fromChars str = some v := by
  unfold decimalInteger at h
  split at h
  · next digits =>
      split at h
      · next hdigits =>
          obtain rfl := Option.some.inj h
          simp [fromChars, takeWhile_of_all hdigits.2, hdigits.1]
      · cases h
  · next hminus =>
      split at h
      · next hdigits =>
          obtain rfl := Option.some.inj h
          have hhead : str.head? ≠ some '-' := by
            intro hhead
            obtain ⟨digits, rfl⟩ := List.head?_eq_some_iff.1 hhead
            exact hminus digits rfl
          simp [fromChars, hhead, takeWhile_of_all hdigits.2, hdigits.1]
      · cases h

/-- What an integer of any size is for `lexicalCast`. -/
theorem taken_of_decimalInteger {str : Text} {v : ℤ} (h : decimalInteger str = some v) :
    (lexicalCastInt64 str).toInt = if -2 ^ 63 ≤ v ∧ v < 2 ^ 63 then v else 0 := by
  simp only [lexicalCastInt64, fromChars_of_decimalInteger h]
  split
  · next hrange => exact Int64.toInt_ofInt_of_le hrange.1 hrange.2
  · rfl

/-! ### Assignments -/

/-- What is assigned to an integer. -/
inductive IntegerSource where
  | number (value : IntegerValue)
  | text (str : Text)

namespace IntegerSource

def value : IntegerSource → RuntimeValue
  | number value => .integer value
  | text str     => .string str

/-- The integer that the source is. -/
def denotes : IntegerSource → Option ℤ
  | number value => some value.toInt
  | text str     => decimalInteger str

/-- The number that the code takes the source for. -/
def taken : IntegerSource → ℤ
  | number value => value.toInt
  | text str     => (lexicalCastInt64 str).toInt

/-- The source is a number of the destination; one that is written is an `int64_t`, too. -/
def Fits (i : IntegerValue) : IntegerSource → Prop
  | number value => i.holds value.toInt
  | text str     => ∃ v, decimalInteger str = some v ∧ i.holds v ∧ -2 ^ 63 ≤ v ∧ v < 2 ^ 63

end IntegerSource

/-- The destination becomes the number that the source is, or there is an error and it stays as it
was. -/
def Exact (lib : FloatLib) (type : IntegerType) (i : IntegerValue) (src : IntegerSource)
    (option : ValueAssignOption) : Prop :=
  match assign lib ((NativeType.integer type).destination lib) i src.value option with
  | (i', .ok ())   => i.holds i'.toInt ∧ src.denotes = some i'.toInt
  | (i', .error _) => i' = i

/-- Nothing is refused, and what is taken is cut. -/
theorem assign_integer (lib : FloatLib) (type : IntegerType) (i : IntegerValue)
    (src : IntegerSource) (option : ValueAssignOption) :
    ∃ i' : IntegerValue, i'.toInt = i.cut src.taken ∧
      assign lib ((NativeType.integer type).destination lib) i src.value option = (i', .ok ()) := by
  cases src with
  | number j =>
      cases hsigned : i.isSigned with
      | true =>
          refine ⟨i.setInt64 j.getInt64, ?_, ?_⟩
          · exact (i.toInt_setInt64 _).trans (i.cut_getInt64 j)
          · show (if i.isSigned then _ else _) = _
            rw [hsigned]
            rfl
      | false =>
          refine ⟨i.setUint64 j.getUint64, ?_, ?_⟩
          · exact (i.toInt_setUint64 _).trans (i.cut_getUint64 j)
          · show (if i.isSigned then _ else _) = _
            rw [hsigned]
            rfl
  | text str =>
      have hempty : (if str = [] then 0 else lexicalCastInt64 str) = lexicalCastInt64 str := by
        split
        · next h => rw [h]; rfl
        · rfl
      exact ⟨_, i.toInt_setInt64 _, congrArg (fun v => (i.setInt64 v, Except.ok ())) hempty⟩

/-- **An integer is exact** for the sources that are numbers of its type. -/
theorem assign_integer_iff (lib : FloatLib) (type : IntegerType) (i : IntegerValue)
    (src : IntegerSource) (option : ValueAssignOption) :
    Exact lib type i src option ↔ src.Fits i := by
  obtain ⟨i', htoInt, hassign⟩ := assign_integer lib type i src option
  unfold Exact
  rw [hassign]
  dsimp only
  rw [htoInt]
  cases src with
  | number j =>
      constructor
      · rintro ⟨-, hdenotes⟩
        exact (i.cut_eq_self_iff _).1 (Option.some.inj hdenotes).symm
      · intro hfits
        have hcut : i.cut j.toInt = j.toInt := (i.cut_eq_self_iff _).2 hfits
        exact ⟨hcut.symm ▸ hfits, congrArg some hcut.symm⟩
  | text str =>
      constructor
      · rintro ⟨hholds, hdenotes⟩
        refine ⟨_, hdenotes, hholds, ?_⟩
        -- what is no `int64_t` is taken for zero, which is one
        by_contra hrange
        have hzero := (taken_of_decimalInteger hdenotes).trans (if_neg hrange)
        have hcut : i.cut (lexicalCastInt64 str).toInt = 0 := by
          rw [hzero]
          exact (i.cut_eq_self_iff 0).2 i.holds_zero
        rw [IntegerSource.taken, hcut] at hrange
        exact hrange ⟨by decide, by decide⟩
      · rintro ⟨v, hdenotes, hholds, hrange⟩
        have htaken := (taken_of_decimalInteger hdenotes).trans (if_pos hrange)
        have hcut : i.cut (lexicalCastInt64 str).toInt = v := by
          rw [htaken]
          exact (i.cut_eq_self_iff v).2 hholds
        exact ⟨hcut.symm ▸ hholds, hdenotes.trans (congrArg some hcut.symm)⟩

/-- A number that the destination cannot be is cut. -/
theorem not_exact_int8 : ¬ Exact .small .int8 (.int8 0) (.number (.int32 300)) {} := by
  intro hexact
  have hcut : assign .small ((NativeType.integer .int8).destination .small)
      (.int8 0 : IntegerValue) (.integer (.int32 300)) = (IntegerValue.int8 44, .ok ()) := rfl
  unfold Exact at hexact
  rw [IntegerSource.value, hcut] at hexact
  exact absurd hexact.2 (by decide)

end MyEngine.Serialization
