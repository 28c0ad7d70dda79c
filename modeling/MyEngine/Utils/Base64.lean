import Mathlib.Algebra.Ring.Int.Defs
import Mathlib.Algebra.Ring.Nat
import Mathlib.Data.List.Basic
import Mathlib.Data.Nat.Notation
import Mathlib.Tactic.Ring

/-!
# Utils — Base64

`base64.cpp`: numbers as groups of base64 digits, five bits in a digit and a sixth one that says
whether another digit follows; the lowest bit of the number is its sign.

* `StartsWith`: a group at the beginning of a sequence, and what stands behind it.
* `vlqDecodeNext_of_startsWith`: up to seven digits are read as the lowest 32 bits of the group.
* `vlqDecodeNext_iff`: the decoder answers the groups at the beginning exactly when the sequence
  does not begin with six digits that are continued and a seventh above 3.
-/

namespace MyEngine.Base64

/-! ### The code -/

/-- The table of `Decode`. -/
def Decode (c : Char) : ℤ :=
  if 'A' ≤ c ∧ c ≤ 'Z' then c.toNat - 'A'.toNat
  else if 'a' ≤ c ∧ c ≤ 'z' then c.toNat - 'a'.toNat + 26
  else if '0' ≤ c ∧ c ≤ '9' then c.toNat - '0'.toNat + 52
  else if c = '+' then 62
  else if c = '/' then 63
  else -1

/-- The number that the 32 bits write: the lowest one is the sign. -/
def signedOf (value : UInt32) : Int32 :=
  let isNegative := value &&& 1 ≠ 0
  let magnitude := value >>> 1
  let result := magnitude.toInt32
  if isNegative then -result else result

/-- The loop of `VlqDecodeNext`, and what is left of the sequence. -/
def vlqDecodeLoop (value : UInt32) (shift : ℕ) :
    List Char → Except (List Char) Int32 × List Char
  | []          => (.error "End of sequence".toList, [])
  | chr :: iter =>
      let digit := Decode chr
      if digit < 0 then
        (.error ("Invalid base64 character (".toList ++ chr :: ") in VLQ sequence".toList), iter)
      else
        let bits := digit.toNat.toUInt32
        let continuation := bits &&& 32 ≠ 0
        let value := value ||| (bits &&& 31) <<< shift.toUInt32
        let shift := shift + 5
        if ¬ continuation ∨ 32 ≤ shift then (.ok (signedOf value), iter)
        else vlqDecodeLoop value shift iter

def VlqDecodeNext (iter : List Char) : Except (List Char) Int32 × List Char :=
  vlqDecodeLoop 0 0 iter

/-! ### Digits -/

/-- A digit is a number below 64, or there is none. -/
theorem Decode_cases (c : Char) : Decode c < 0 ∨ ∃ n : ℕ, Decode c = n ∧ n < 64 := by
  have htoNat : ∀ {a b : Char}, a ≤ b → a.toNat ≤ b.toNat := fun h => h
  have hA : 'A'.toNat = 65 := rfl
  have hZ : 'Z'.toNat = 90 := rfl
  have ha : 'a'.toNat = 97 := rfl
  have hz : 'z'.toNat = 122 := rfl
  have h0 : '0'.toNat = 48 := rfl
  have h9 : '9'.toNat = 57 := rfl
  unfold Decode
  split
  case isTrue h =>
    have h₁ := htoNat h.1
    have h₂ := htoNat h.2
    exact .inr ⟨c.toNat - 'A'.toNat, by omega, by omega⟩
  split
  case isTrue h =>
    have h₁ := htoNat h.1
    have h₂ := htoNat h.2
    exact .inr ⟨c.toNat - 'a'.toNat + 26, by omega, by omega⟩
  split
  case isTrue h =>
    have h₁ := htoNat h.1
    have h₂ := htoNat h.2
    exact .inr ⟨c.toNat - '0'.toNat + 52, by omega, by omega⟩
  split
  case isTrue => exact .inr ⟨62, rfl, by decide⟩
  split
  case isTrue => exact .inr ⟨63, rfl, by decide⟩
  case isFalse => exact .inl (by decide)

/-- The five bits of each digit, the first ones lowest. -/
def groupValue : List ℕ → ℕ
  | []      => 0
  | d :: ds => d % 32 + 32 * groupValue ds

theorem groupValue_append (ds es : List ℕ) :
    groupValue (ds ++ es) = groupValue ds + 32 ^ ds.length * groupValue es := by
  induction ds with
  | nil => simp [groupValue]
  | cons d ds ih =>
      rw [List.cons_append, groupValue, groupValue, ih, List.length_cons, Nat.pow_succ]
      ring

theorem groupValue_lt (ds : List ℕ) : groupValue ds < 32 ^ ds.length := by
  induction ds with
  | nil => exact Nat.one_pos
  | cons d ds ih =>
      rw [groupValue, List.length_cons, Nat.pow_succ]
      have := Nat.mod_lt d (by decide : 0 < 32)
      omega

/-- What the bits of a number say: the lowest one is the sign. -/
def signed (value : ℕ) : ℤ := if value % 2 = 1 then -(value / 2 : ℕ) else (value / 2 : ℕ)

theorem natAbs_signed (value : ℕ) : (signed value).natAbs = value / 2 := by
  rw [signed]
  split
  · rw [Int.natAbs_neg, Int.natAbs_natCast]
  · exact Int.natAbs_natCast _

theorem toInt_signedOf (value : UInt32) : (signedOf value).toInt = signed value.toNat := by
  have hlt := value.toNat_lt
  have hand : (value &&& 1 ≠ 0) ↔ value.toNat % 2 = 1 := by
    rw [ne_eq, ← UInt32.toNat_inj, UInt32.toNat_and]
    have h1 : (1 : UInt32).toNat = 2 ^ 1 - 1 := rfl
    rw [h1, Nat.and_two_pow_sub_one_eq_mod]
    have h0 : (0 : UInt32).toNat = 0 := rfl
    omega
  have hshift : (value >>> 1).toNat = value.toNat / 2 := by
    rw [UInt32.toNat_shiftRight]
    exact Nat.shiftRight_eq_div_pow _ 1
  have hmagnitude : (value >>> 1).toInt32.toInt = (value.toNat / 2 : ℕ) := by
    change (value >>> 1).toBitVec.toInt = _
    rw [BitVec.toInt_eq_toNat_cond]
    change (if 2 * (value >>> 1).toNat < 2 ^ 32 then _ else _) = _
    rw [hshift, if_pos (by omega)]
    exact congrArg _ hshift
  rw [signed, signedOf]
  by_cases h : value &&& 1 ≠ 0
  · rw [if_pos h, if_pos (hand.mp h), Int32.toInt_neg, hmagnitude]
    exact Int.bmod_eq_of_le (by omega) (by omega)
  · rw [if_neg h, if_neg (mt hand.mpr h), hmagnitude]

/-! ### The groups at the beginning of a sequence -/

/-- The sequence starts with a group of these digits: some that are continued, and one that is
not. -/
inductive StartsWith : List Char → List ℕ → List Char → Prop where
  | last {c : Char} {d : ℕ} {rest : List Char} (hc : Decode c = d) (hd : d < 32) :
      StartsWith (c :: rest) [d] rest
  | more {c : Char} {d : ℕ} {ds : List ℕ} {s rest : List Char} (hc : Decode c = d) (hd : 32 ≤ d)
      (h : StartsWith s ds rest) : StartsWith (c :: s) (d :: ds) rest

section Loop
variable {s rest : List Char} {ds : List ℕ} {m k n : ℕ} {c : Char} {v : Int32}

/-- A digit more, above those that have been read. -/
theorem ofNat_step (hk : k ≤ 6) (hm : m < 32 ^ k) :
    UInt32.ofNat m ||| (n.toUInt32 &&& 31) <<< (5 * k).toUInt32 =
      UInt32.ofNat (m + 32 ^ k * (n % 32)) := by
  have hpow : (32 : ℕ) ^ k = 2 ^ (5 * k) := by rw [Nat.pow_mul]
  have hle : (2 : ℕ) ^ (5 * k) ≤ 2 ^ 30 := Nat.pow_le_pow_right (by decide) (by omega)
  have hbits : (n.toUInt32 &&& 31).toNat = n % 32 := by
    rw [UInt32.toNat_and]
    have h31 : (31 : UInt32).toNat = 2 ^ 5 - 1 := rfl
    have hn' : n.toUInt32.toNat = n % 2 ^ 32 := UInt32.toNat_ofNat'
    rw [h31, Nat.and_two_pow_sub_one_eq_mod, hn']
    omega
  have hshift : (5 * k).toUInt32.toNat % 32 = 5 * k := by
    have : (5 * k).toUInt32.toNat = 5 * k % 2 ^ 32 := UInt32.toNat_ofNat'
    omega
  have hsplit : 2 ^ 32 = 2 ^ (5 * k) * 2 ^ (32 - 5 * k) := by
    rw [← Nat.pow_add]
    congr 1
    omega
  rw [hpow] at hm ⊢
  rw [← UInt32.toNat_inj, UInt32.toNat_or, UInt32.toNat_shiftLeft, hbits, hshift,
    UInt32.toNat_ofNat', UInt32.toNat_ofNat', Nat.mod_eq_of_lt (by omega : m < 2 ^ 32),
    Nat.shiftLeft_eq, Nat.mul_comm (n % 32), hsplit, Nat.mul_mod_mul_left, Nat.or_comm,
    ← Nat.two_pow_add_eq_or_of_lt hm, Nat.mod_mul, Nat.add_mul_mod_self_left,
    Nat.mod_eq_of_lt hm, Nat.add_mul_div_left _ _ (Nat.two_pow_pos _), Nat.div_eq_of_lt hm,
    Nat.zero_add, Nat.add_comm]

/-- A digit is read: another one is waited for when it is continued and the accumulator is not
full. -/
theorem vlqDecodeLoop_cons (hk : k ≤ 6) (hm : m < 32 ^ k) (hc : Decode c = n) :
    vlqDecodeLoop (.ofNat m) (5 * k) (c :: s) =
      if 32 ≤ n ∧ k < 6 then vlqDecodeLoop (.ofNat (m + 32 ^ k * (n % 32))) (5 * (k + 1)) s
      else (.ok (signedOf (.ofNat (m + 32 ^ k * (n % 32)))), s) := by
  have hn : n < 64 := by
    rcases Decode_cases c with h | ⟨n', h, hlt⟩
    · omega
    · omega
  have hbit : n.toUInt32 &&& 32 ≠ 0 ↔ 32 ≤ n := by
    have hall : ∀ i < 64, i.toUInt32 &&& 32 ≠ 0 ↔ 32 ≤ i := by decide
    exact hall n hn
  have hdigit : ¬ (n : ℤ) < 0 := by omega
  rw [vlqDecodeLoop]
  simp only [if_neg hdigit, hc, Int.toNat_natCast, ofNat_step hk hm, hbit]
  by_cases h : 32 ≤ n ∧ k < 6
  · rw [if_pos h, if_neg (by omega)]
    rfl
  · rw [if_neg h, if_pos (by omega)]

/-- Another digit keeps below the next power. -/
theorem lt_step (hm : m < 32 ^ k) (n : ℕ) : m + 32 ^ k * (n % 32) < 32 ^ (k + 1) := by
  have hdigit : n % 32 ≤ 31 := by omega
  have hmul := Nat.mul_le_mul_left (32 ^ k) hdigit
  rw [Nat.pow_succ]
  omega

theorem StartsWith.length_pos (h : StartsWith s ds rest) : 0 < ds.length := by
  cases h with
  | last | more => exact Nat.zero_lt_succ _

/-- A group that fits the accumulator is read to its end. -/
theorem vlqDecodeLoop_of_startsWith (h : StartsWith s ds rest) (hlength : k + ds.length ≤ 7)
    (hm : m < 32 ^ k) : vlqDecodeLoop (.ofNat m) (5 * k) s =
      (.ok (signedOf (.ofNat (m + 32 ^ k * groupValue ds))), rest) := by
  induction h generalizing k m with
  | @last c d rest hc hd =>
      rw [List.length_singleton] at hlength
      rw [vlqDecodeLoop_cons (by omega) hm hc, if_neg (by omega)]
      simp [groupValue]
  | @more c d ds s rest hc hd hstart ih =>
      have hpos := hstart.length_pos
      rw [List.length_cons] at hlength
      rw [vlqDecodeLoop_cons (by omega) hm hc, if_pos (by omega),
        ih (by omega) (lt_step hm d), groupValue, Nat.pow_succ]
      ring_nf

/-- What the decoder answers is a group, or what seven continued digits leave. -/
theorem startsWith_of_vlqDecodeLoop (hk : k ≤ 6) (hm : m < 32 ^ k)
    (h : vlqDecodeLoop (.ofNat m) (5 * k) s = (.ok v, rest)) :
    (∃ ds, StartsWith s ds rest ∧ k + ds.length ≤ 7) ∨
      ∃ cs, s = cs ++ rest ∧ k + cs.length = 7 ∧ ∀ c ∈ cs, 32 ≤ Decode c := by
  induction s generalizing k m with
  | nil => cases h
  | cons c s ih =>
      rcases Decode_cases c with hc | ⟨n, hc, -⟩
      · rw [vlqDecodeLoop] at h
        simp only [if_pos hc] at h
        cases h
      rw [vlqDecodeLoop_cons hk hm hc] at h
      split at h
      case isTrue hcont =>
        rcases ih (by omega) (lt_step hm n) h with ⟨ds, hds, hlength⟩ | ⟨cs, hcs, hlength, hall⟩
        · exact .inl ⟨n :: ds, .more hc hcont.1 hds, by rw [List.length_cons]; omega⟩
        · refine .inr ⟨c :: cs, congrArg (c :: ·) hcs, by rw [List.length_cons]; omega, ?_⟩
          exact List.forall_mem_cons.mpr ⟨by omega, hall⟩
      case isFalse hend =>
        obtain rfl := (Prod.mk.inj h).2
        by_cases hn : n < 32
        · exact .inl ⟨[n], .last hc hn, by rw [List.length_singleton]; omega⟩
        · refine .inr ⟨[c], rfl, by rw [List.length_singleton]; omega, ?_⟩
          exact List.forall_mem_singleton.mpr (by omega)

theorem vlqDecodeNext_of_startsWith (h : StartsWith s ds rest) (hlength : ds.length ≤ 7) :
    VlqDecodeNext s = (.ok (signedOf (.ofNat (groupValue ds))), rest) := by
  have hloop := vlqDecodeLoop_of_startsWith (m := 0) (k := 0) h (by omega) (by decide)
  rw [pow_zero, Nat.one_mul, Nat.zero_add] at hloop
  exact hloop

theorem startsWith_of_vlqDecodeNext (h : VlqDecodeNext s = (.ok v, rest)) :
    (∃ ds, StartsWith s ds rest ∧ ds.length ≤ 7) ∨
      ∃ cs, s = cs ++ rest ∧ cs.length = 7 ∧ ∀ c ∈ cs, 32 ≤ Decode c := by
  have hloop := startsWith_of_vlqDecodeLoop (m := 0) (k := 0) (by omega) (by decide) h
  simpa only [Nat.zero_add] using hloop

/-- The group, cut before its last digit. -/
theorem StartsWith.exists_eq (h : StartsWith s ds rest) :
    ∃ (cs : List Char) (c : Char) (es : List ℕ) (d : ℕ), s = cs ++ c :: rest ∧ ds = es ++ [d] ∧
      cs.length = es.length ∧ (∀ x ∈ cs, 32 ≤ Decode x) ∧ Decode c = d ∧ d < 32 := by
  induction h with
  | @last c d rest hc hd => exact ⟨[], c, [], d, rfl, rfl, rfl, by simp, hc, hd⟩
  | @more c d ds s rest hc hd hstart ih =>
      obtain ⟨cs, c', es, d', rfl, rfl, hlength, hall, hc', hd'⟩ := ih
      refine ⟨c :: cs, c', d :: es, d', rfl, rfl, congrArg (· + 1) hlength, ?_, hc', hd'⟩
      exact List.forall_mem_cons.mpr ⟨by omega, hall⟩

end Loop

/-! ### The answers of the decoder -/

/-- The sequence begins with six digits that are continued and a seventh above 3. -/
def Overlong (s : List Char) : Prop :=
  ∃ cs c rest, s = cs ++ c :: rest ∧ cs.length = 6 ∧ (∀ x ∈ cs, 32 ≤ Decode x) ∧ 3 < Decode c

/-- The decoder answers exactly the groups whose number fits, with the number and with what stands
behind them. -/
def DecodesExactly (s : List Char) : Prop :=
  ∀ v rest, VlqDecodeNext s = (.ok v, rest) ↔
    ∃ ds, StartsWith s ds rest ∧ v.toInt = signed (groupValue ds)

section Answers
variable {s rest : List Char} {ds : List ℕ}

/-- Seven digits whose last one is at most 3 fill the 32 bits. -/
theorem groupValue_lt_of_not_overlong (hs : ¬ Overlong s) (h : StartsWith s ds rest) :
    ds.length ≤ 7 ∧ groupValue ds < 2 ^ 32 := by
  obtain ⟨cs, c, es, d, rfl, rfl, hlength, hall, hc, hd⟩ := h.exists_eq
  have hes : es.length ≤ 6 := by
    by_contra hlt
    -- the seventh digit is continued, too
    have hcs : cs = cs.take 6 ++ cs[6] :: cs.drop 7 := by
      rw [← List.drop_eq_getElem_cons, List.take_append_drop]
    refine hs ⟨cs.take 6, cs[6], cs.drop 7 ++ c :: rest, ?_, ?_, ?_, ?_⟩
    · conv_lhs => rw [hcs]
      rw [List.append_assoc, List.cons_append]
    · rw [List.length_take]
      omega
    · exact fun x hx => hall x (List.mem_of_mem_take hx)
    · have := hall cs[6] (List.getElem_mem _)
      omega
  have hvalue := groupValue_lt es
  rw [groupValue_append, List.length_append, List.length_singleton]
  refine ⟨by omega, ?_⟩
  have hlast : groupValue [d] = d := by
    rw [groupValue, groupValue]
    omega
  rw [hlast]
  by_cases h6 : es.length = 6
  · have hd3 : d ≤ 3 := by
      by_contra hlt
      exact hs ⟨cs, c, rest, rfl, hlength.trans h6, hall, by omega⟩
    rw [h6] at hvalue ⊢
    omega
  · have hpow : (32 : ℕ) ^ es.length ≤ 32 ^ 5 := Nat.pow_le_pow_right (by decide) (by omega)
    have hmul := Nat.mul_le_mul hpow (Nat.le_of_lt_succ hd)
    omega

theorem signed_inj {v : Int32} {value : ℕ} (hvalue : value < 2 ^ 32) :
    v.toInt = signed value ↔ v = signedOf (.ofNat value) := by
  rw [← Int32.toInt_inj, toInt_signedOf, UInt32.toNat_ofNat', Nat.mod_eq_of_lt hvalue]

/-- Where the accumulator is full, the decoder answers all the same. -/
theorem exists_vlqDecodeLoop {cs : List Char} {c : Char} {k m : ℕ} (hall : ∀ x ∈ cs, 32 ≤ Decode x)
    (hc : 0 ≤ Decode c) (hk : k + cs.length = 6) (hm : m < 32 ^ k) :
    ∃ v, vlqDecodeLoop (.ofNat m) (5 * k) (cs ++ c :: rest) = (.ok v, rest) := by
  induction cs generalizing k m with
  | nil =>
      rw [List.length_nil] at hk
      obtain ⟨n, hn, -⟩ := (Decode_cases c).resolve_left (by omega)
      refine ⟨signedOf (.ofNat (m + 32 ^ k * (n % 32))), ?_⟩
      rw [List.nil_append, vlqDecodeLoop_cons (by omega) hm hn, if_neg (by omega)]
  | cons x cs ih =>
      rw [List.length_cons] at hk
      obtain ⟨hx, hall⟩ := List.forall_mem_cons.mp hall
      obtain ⟨n, hn, -⟩ := (Decode_cases x).resolve_left (by omega)
      obtain ⟨v, hv⟩ := ih hall (by omega) (lt_step hm n)
      refine ⟨v, ?_⟩
      rw [List.cons_append, vlqDecodeLoop_cons (by omega) hm hn, if_pos (by omega), hv]

end Answers

/-- **Decoding a number.**  The decoder answers the groups whose number fits, and only them, with
the number and behind the group, unless the sequence begins with seven digits that do not fit the
accumulator. -/
theorem vlqDecodeNext_iff (s : List Char) : DecodesExactly s ↔ ¬ Overlong s := by
  constructor
  · rintro hexact ⟨cs, c, rest, rfl, hlength, hall, hc⟩
    obtain ⟨v, hv⟩ : ∃ v, VlqDecodeNext (cs ++ c :: rest) = (.ok v, rest) :=
      exists_vlqDecodeLoop (k := 0) (m := 0) hall (by omega) (by omega) (by decide)
    obtain ⟨ds, hstart, hvalue⟩ := (hexact v rest).mp hv
    obtain ⟨cs', c', es, d, heq, rfl, hes, -, hc', hd⟩ := hstart.exists_eq
    -- the group is these seven digits, and the last of them says more than the number can hold
    have hcs : cs'.length = cs.length := by
      have := congrArg List.length heq
      simp only [List.length_append, List.length_cons] at this
      omega
    obtain ⟨-, hcons⟩ := List.append_inj heq hcs.symm
    obtain rfl := (List.cons.inj hcons).1
    have h6 : es.length = 6 := by omega
    have hbig : 2 ^ 32 ≤ groupValue (es ++ [d]) := by
      rw [groupValue_append, h6, groupValue, groupValue]
      omega
    rw [vlqDecodeNext_of_startsWith hstart (by simp [h6])] at hv
    obtain rfl := Except.ok.inj (Prod.mk.inj hv).1
    have habs := congrArg Int.natAbs hvalue
    rw [toInt_signedOf, natAbs_signed, natAbs_signed] at habs
    have := (UInt32.ofNat (groupValue (es ++ [d]))).toNat_lt
    omega
  · intro hs v rest
    constructor
    · intro hv
      rcases startsWith_of_vlqDecodeNext hv with ⟨ds, hstart, hlength⟩ | ⟨cs, rfl, hlength, hall⟩
      · obtain ⟨-, hvalue⟩ := groupValue_lt_of_not_overlong hs hstart
        rw [vlqDecodeNext_of_startsWith hstart hlength] at hv
        obtain rfl := Except.ok.inj (Prod.mk.inj hv).1
        exact ⟨ds, hstart, (signed_inj hvalue).mpr rfl⟩
      · have hne : cs ≠ [] := by
          rintro rfl
          cases hlength
        obtain ⟨x, c, rfl⟩ := (List.eq_nil_or_concat' cs).resolve_left hne
        rw [List.length_append, List.length_singleton] at hlength
        rw [List.forall_mem_append, List.forall_mem_singleton] at hall
        exact absurd ⟨x, c, rest, by simp, by omega, hall.1, by omega⟩ hs
    · rintro ⟨ds, hstart, hv⟩
      obtain ⟨hlength, hvalue⟩ := groupValue_lt_of_not_overlong hs hstart
      rw [vlqDecodeNext_of_startsWith hstart hlength, (signed_inj hvalue).mp hv]

/-- Seven continued digits and the end: no group, but an answer. -/
theorem vlqDecodeNext_overlong : ¬ DecodesExactly "ggggggg".toList := by
  intro hexact
  obtain ⟨ds, hstart, -⟩ := (hexact 0 []).mp (by decide)
  obtain ⟨cs, c, es, d, heq, -, -, -, hc, hd⟩ := hstart.exists_eq
  have hlast : some 'g' = some c := by simpa using congrArg List.getLast? heq
  obtain rfl := Option.some.inj hlast
  have hg : Decode 'g' = 32 := by decide
  omega

end MyEngine.Base64
