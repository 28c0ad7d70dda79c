import MyEngine.Utils.Base64

/-!
# Utils — Base64RoundTrip

`base64.cpp`: what `VlqEncode` writes is read back number by number.

* `startsWith_vlqEncodeLoop`: a number is written as one group of at most seven digits.
* `signedOf_encodedOf`: the smallest number has no negative in 32 bits, and is written as zero.
* `vlqRoundTrip_iff`: the lists that are read back as they were.
-/

namespace MyEngine.Base64

/-! ### The code -/

/-- The table of `Encode`. -/
def table : List Char :=
  "ABCDEFGHIJKLMNOPQRSTUVWXYZabcdefghijklmnopqrstuvwxyz0123456789+/".toList

def Encode (digit : UInt8) : Char := table.getD (digit &&& 63).toNat 'A'

/-- The sign in the lowest bit.  The negative of the smallest number overflows, and wraps around. -/
def encodedOf (val : Int32) : UInt32 :=
  if val < 0 then (-val).toUInt32 <<< 1 ||| 1 else val.toUInt32 <<< 1

theorem toNat_shiftRight_five (encoded : UInt32) : (encoded >>> 5).toNat = encoded.toNat / 32 := by
  rw [UInt32.toNat_shiftRight]
  exact Nat.shiftRight_eq_div_pow _ 5

/-- The loop over the digits of a number. -/
def vlqEncodeLoop (encoded : UInt32) : List Char :=
  let digit := encoded &&& 31
  let encoded' := encoded >>> 5
  let digit := if 0 < encoded' then digit ||| 32 else digit
  if _h : encoded' = 0 then [Encode digit.toUInt8]
  else Encode digit.toUInt8 :: vlqEncodeLoop encoded'
termination_by encoded.toNat
decreasing_by
  have hne : (encoded >>> 5).toNat ≠ 0 := fun h0 => _h (UInt32.toNat_inj.mp h0)
  rw [toNat_shiftRight_five] at hne ⊢
  omega

def VlqEncode (values : List Int32) : List Char :=
  values.flatMap fun val => vlqEncodeLoop (encodedOf val)

theorem length_lt_of_vlqDecodeNext {s rest : List Char} {v : Int32}
    (h : VlqDecodeNext s = (.ok v, rest)) : rest.length < s.length := by
  rcases startsWith_of_vlqDecodeNext h with ⟨ds, hstart, -⟩ | ⟨cs, rfl, hlength, -⟩
  · obtain ⟨cs, c, -, -, rfl, -⟩ := hstart.exists_eq
    rw [List.length_append, List.length_cons]
    omega
  · rw [List.length_append]
    omega

/-- Calls of `VlqDecodeNext` until the end, or until one fails. -/
def decodeVlq (vlq : List Char) : Except (List Char) (List Int32) :=
  if vlq = [] then .ok []
  else
    match _h : VlqDecodeNext vlq with
    | (.ok value, iter) => (decodeVlq iter).map (value :: ·)
    | (.error e, _)     => .error e
termination_by vlq.length
decreasing_by exact length_lt_of_vlqDecodeNext _h

/-! ### One number -/

theorem Decode_Encode {n : ℕ} (hn : n < 64) : Decode (Encode n.toUInt8) = n := by
  have hall : ∀ i : ℕ, i < 64 → Decode (Encode i.toUInt8) = i := by decide +kernel
  exact hall n hn

/-- The digit that is written: five bits, and whether there are more. -/
theorem vlqEncodeLoop_eq (encoded : UInt32) : vlqEncodeLoop encoded =
    if encoded.toNat / 32 = 0 then [Encode (encoded.toNat % 32).toUInt8]
    else Encode (encoded.toNat % 32 + 32).toUInt8 :: vlqEncodeLoop (encoded >>> 5) := by
  have hlow : encoded &&& 31 = UInt32.ofNat (encoded.toNat % 32) := by
    rw [← UInt32.toNat_inj, UInt32.toNat_and, UInt32.toNat_ofNat']
    have h31 : (31 : UInt32).toNat = 2 ^ 5 - 1 := rfl
    rw [h31, Nat.and_two_pow_sub_one_eq_mod]
    omega
  have hdigits : ∀ i : ℕ, i < 32 → (UInt32.ofNat i).toUInt8 = i.toUInt8 ∧
      (UInt32.ofNat i ||| 32).toUInt8 = (i + 32).toUInt8 := by decide
  obtain ⟨hlast, hmore⟩ := hdigits (encoded.toNat % 32) (Nat.mod_lt _ (by decide))
  have hzero : encoded >>> 5 = 0 ↔ encoded.toNat / 32 = 0 := by
    rw [← UInt32.toNat_inj, toNat_shiftRight_five]
    rfl
  have hpos : (0 : UInt32) < encoded >>> 5 ↔ ¬ encoded.toNat / 32 = 0 := by
    rw [UInt32.lt_iff_toNat_lt, toNat_shiftRight_five]
    exact Nat.pos_iff_ne_zero
  rw [vlqEncodeLoop]
  simp only [hlow, hpos]
  by_cases h : encoded.toNat / 32 = 0
  · rw [if_pos h, if_neg (not_not.mpr h), dif_pos (hzero.mpr h), hlast]
  · rw [if_neg h, if_pos h, dif_neg (mt hzero.mp h), hmore]

/-- A number is one group, of no more digits than it needs. -/
theorem startsWith_vlqEncodeLoop (encoded : UInt32) (rest : List Char) :
    ∃ ds, StartsWith (vlqEncodeLoop encoded ++ rest) ds rest ∧ groupValue ds = encoded.toNat ∧
      ∀ k, encoded.toNat < 32 ^ (k + 1) → ds.length ≤ k + 1 := by
  induction hn : encoded.toNat using Nat.strong_induction_on generalizing encoded with
  | _ n ih =>
      subst hn
      rw [vlqEncodeLoop_eq]
      by_cases h : encoded.toNat / 32 = 0
      · rw [if_pos h]
        refine ⟨[encoded.toNat % 32], .last (Decode_Encode (by omega)) (by omega), ?_,
          fun k _ => ?_⟩
        · rw [groupValue, groupValue]
          omega
        · exact Nat.le_add_left 1 k
      · rw [if_neg h]
        obtain ⟨ds, hstart, hvalue, hlength⟩ :=
          ih (encoded >>> 5).toNat (by rw [toNat_shiftRight_five]; omega) (encoded >>> 5) rfl
        rw [toNat_shiftRight_five] at hvalue hlength
        refine ⟨(encoded.toNat % 32 + 32) :: ds,
          .more (Decode_Encode (by omega)) (by omega) hstart, ?_, fun k hk => ?_⟩
        · rw [groupValue, hvalue]
          omega
        · cases k with
          | zero => omega
          | succ k =>
              rw [Nat.pow_succ] at hk
              rw [List.length_cons]
              exact Nat.succ_le_succ (hlength k (by omega))

theorem vlqDecodeNext_vlqEncodeLoop (encoded : UInt32) (rest : List Char) :
    VlqDecodeNext (vlqEncodeLoop encoded ++ rest) = (.ok (signedOf encoded), rest) := by
  obtain ⟨ds, hstart, hvalue, hlength⟩ := startsWith_vlqEncodeLoop encoded rest
  have hlt := encoded.toNat_lt
  rw [vlqDecodeNext_of_startsWith hstart (hlength 6 (by omega)), hvalue, UInt32.ofNat_toNat]

theorem toNat_toUInt32 {val : Int32} (h : 0 ≤ val.toInt) :
    (val.toUInt32.toNat : ℤ) = val.toInt := by
  have hlt := val.toUInt32.toNat_lt
  have hval : val.toInt = if 2 * val.toUInt32.toNat < 2 ^ 32 then (val.toUInt32.toNat : ℤ)
      else (val.toUInt32.toNat : ℤ) - (2 ^ 32 : ℕ) := BitVec.toInt_eq_toNat_cond _
  split at hval <;> omega

/-- The bits of a number that is not negative. -/
theorem toNat_shiftLeft_one (val : Int32) (h : 0 ≤ val.toInt) :
    ((val.toUInt32 <<< 1).toNat : ℤ) = 2 * val.toInt := by
  have hnat := toNat_toUInt32 h
  have hlt := val.toInt_lt
  rw [UInt32.toNat_shiftLeft]
  change ((val.toUInt32.toNat <<< 1 % 2 ^ 32 : ℕ) : ℤ) = _
  rw [Nat.shiftLeft_eq]
  omega

theorem signedOf_encodedOf (val : Int32) :
    signedOf (encodedOf val) = if val = Int32.minValue then 0 else val := by
  by_cases hmin : val = Int32.minValue
  · subst hmin
    decide
  rw [if_neg hmin, ← Int32.toInt_inj, toInt_signedOf, encodedOf]
  have hle := val.le_toInt
  have hne : val.toInt ≠ -2 ^ 31 := fun h => hmin (Int32.toInt_inj.mp h)
  split
  case isTrue hneg =>
    rw [Int32.lt_iff_toInt_lt] at hneg
    change val.toInt < 0 at hneg
    have hopposite : (-val).toInt = -val.toInt := by
      rw [Int32.toInt_neg]
      exact Int.bmod_eq_of_le (by omega) (by omega)
    have hbits := toNat_shiftLeft_one (-val) (by omega)
    rw [hopposite] at hbits
    have hor : ((-val).toUInt32 <<< 1 ||| 1).toNat = ((-val).toUInt32 <<< 1).toNat + 1 := by
      obtain ⟨k, hk⟩ : ∃ k, ((-val).toUInt32 <<< 1).toNat = 2 ^ 1 * k :=
        ⟨(-val.toInt).toNat, by omega⟩
      rw [UInt32.toNat_or, hk]
      exact (Nat.two_pow_add_eq_or_of_lt (by decide) k).symm
    rw [hor, signed]
    omega
  case isFalse hneg =>
    rw [Int32.lt_iff_toInt_lt] at hneg
    change ¬ val.toInt < 0 at hneg
    have hbits := toNat_shiftLeft_one val (by omega)
    rw [signed]
    omega

/-! ### Lists of numbers -/

theorem decodeVlq_append (val : Int32) (rest : List Char) :
    decodeVlq (vlqEncodeLoop (encodedOf val) ++ rest) =
      (decodeVlq rest).map ((if val = Int32.minValue then 0 else val) :: ·) := by
  have hnext := vlqDecodeNext_vlqEncodeLoop (encodedOf val) rest
  have hne : vlqEncodeLoop (encodedOf val) ++ rest ≠ [] := by
    rw [vlqEncodeLoop_eq]
    split <;> simp
  rw [decodeVlq, if_neg hne]
  split
  case h_1 value iter h =>
    rw [hnext, signedOf_encodedOf] at h
    obtain ⟨hvalue, hiter⟩ := Prod.mk.inj h
    rw [← Except.ok.inj hvalue, hiter]
  case h_2 e iter h =>
    rw [hnext] at h
    cases (Prod.mk.inj h).1

/-- What is read back: each smallest number comes back as zero. -/
theorem decodeVlq_vlqEncode (values : List Int32) : decodeVlq (VlqEncode values) =
    .ok (values.map fun val => if val = Int32.minValue then 0 else val) := by
  induction values with
  | nil =>
      rw [VlqEncode, List.flatMap_nil, decodeVlq]
      rfl
  | cons val values ih =>
      rw [VlqEncode, List.flatMap_cons, decodeVlq_append]
      change Except.map _ (decodeVlq (VlqEncode values)) = _
      rw [ih]
      rfl

/-- **Round trip.**  A list is read back exactly when the smallest number is not in it. -/
theorem vlqRoundTrip_iff (values : List Int32) :
    decodeVlq (VlqEncode values) = .ok values ↔ Int32.minValue ∉ values := by
  rw [decodeVlq_vlqEncode]
  constructor
  · intro h hmem
    obtain ⟨i, hi⟩ := List.getElem?_of_mem hmem
    have hget := congrArg (·[i]?) (Except.ok.inj h)
    rw [List.getElem?_map, hi] at hget
    exact absurd hget (by decide)
  · intro h
    refine congrArg Except.ok
      ((List.map_congr_left fun val hval => if_neg ?_).trans (List.map_id _))
    rintro rfl
    exact h hval

/-- The smallest number is read back as zero. -/
theorem roundTrip_minValue : decodeVlq (VlqEncode [Int32.minValue]) ≠ .ok [Int32.minValue] := by
  rw [decodeVlq_vlqEncode]
  decide

end MyEngine.Base64
