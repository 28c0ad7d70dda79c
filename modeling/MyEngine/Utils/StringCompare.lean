import Mathlib.Data.List.Lex
import MyEngine.Support.Comparison

/-!
# Utils — StringCompare

`icaseEqual`, `icaseCompare` and `CiStringComparer`, of `string_utils.h`.  `lower` takes a `char`,
which has a sign: a character of a string of another type is converted to one.

* `icaseCompare_compares`: `icaseCompare` is the order of a dictionary, with the characters in the
  order of what `lower` makes of them.
* `icaseEqual_iff`: `icaseEqual` is the equality of what `lower` makes of the strings.
-/

namespace MyEngine.Utils

open Support

/-- `tolower`, in the C locale. -/
def tolower (ch : UInt8) : UInt8 :=
  if 'A'.toUInt8 ≤ ch ∧ ch ≤ 'Z'.toUInt8 then ch + ('a'.toUInt8 - 'A'.toUInt8) else ch

def lower (ch : Int8) : Int8 := (tolower ch.toUInt8).toInt8

section Code
variable {α : Type*} (toChar : α → Int8)

/-- The loop of `icaseEqual`, over strings of one length. -/
def icaseEqualLoop : List α → List α → Bool
  | ch1 :: str1, ch2 :: str2 =>
      if lower (toChar ch1) ≠ lower (toChar ch2) then false else icaseEqualLoop str1 str2
  | _, _ => true

def icaseEqual (str1 str2 : List α) : Bool :=
  if str1.length ≠ str2.length then false else icaseEqualLoop toChar str1 str2

/-- `std::mismatch`: what is left of the ranges from the first pair on that is not equal. -/
def mismatch (eq : α → α → Bool) : List α → List α → List α × List α
  | ch1 :: str1, ch2 :: str2 =>
      if eq ch1 ch2 then mismatch eq str1 str2 else (ch1 :: str1, ch2 :: str2)
  | str1, str2 => (str1, str2)

def icaseCompare (str1 str2 : List α) : ℤ :=
  match mismatch (fun c1 c2 => lower (toChar c1) == lower (toChar c2)) str1 str2 with
  | ([], str2)               => if str2 = [] then 0 else -1
  | (_ :: _, [])             => 1
  | (first :: _, second :: _) => if lower (toChar first) < lower (toChar second) then -1 else 1

/-- `CiStringComparer::operator()`. -/
def CiStringComparer (str1 str2 : List α) : Prop := icaseCompare toChar str1 str2 < 0

end Code

section Laws
variable {α : Type*} {toChar : α → Int8} {str1 str2 : List α} {ch1 ch2 : α}

/-- What the strings are compared by. -/
def folded (toChar : α → Int8) (str : List α) : List ℤ :=
  str.map fun ch => (lower (toChar ch)).toInt

theorem icaseCompare_cons_of_eq (h : lower (toChar ch1) = lower (toChar ch2)) :
    icaseCompare toChar (ch1 :: str1) (ch2 :: str2) = icaseCompare toChar str1 str2 := by
  rw [icaseCompare, mismatch, if_pos (beq_iff_eq.2 h), ← icaseCompare]

theorem icaseCompare_cons_of_ne (h : lower (toChar ch1) ≠ lower (toChar ch2)) :
    icaseCompare toChar (ch1 :: str1) (ch2 :: str2) =
      if lower (toChar ch1) < lower (toChar ch2) then -1 else 1 := by
  rw [icaseCompare, mismatch, if_neg (mt beq_iff_eq.1 h)]

theorem icaseCompare_compares (toChar : α → Int8) :
    Compares (icaseCompare toChar) (folded toChar) := by
  intro str1
  induction str1 with
  | nil =>
      intro str2
      cases str2 with
      | nil           => exact .eq rfl rfl
      | cons ch2 str2 => exact .lt (List.nil_lt_cons _ _) rfl
  | cons ch1 str1 ih =>
      intro str2
      cases str2 with
      | nil => exact .gt (List.nil_lt_cons _ _) rfl
      | cons ch2 str2 =>
          rcases lt_trichotomy (lower (toChar ch1)).toInt (lower (toChar ch2)).toInt with
            hlt | heq | hgt
          · have hne : lower (toChar ch1) ≠ lower (toChar ch2) :=
              fun he => hlt.ne (congrArg Int8.toInt he)
            refine .lt (List.cons_lt_cons_iff.2 (.inl hlt)) ?_
            rw [icaseCompare_cons_of_ne hne]
            exact if_pos (Int8.lt_iff_toInt_lt.2 hlt)
          · have heq' : lower (toChar ch1) = lower (toChar ch2) := Int8.toInt_inj.1 heq
            have hcons : icaseCompare toChar (ch1 :: str1) (ch2 :: str2) =
                icaseCompare toChar str1 str2 := icaseCompare_cons_of_eq heq'
            cases ih str2 with
            | lt hkey hcmp =>
                exact .lt (List.cons_lt_cons_iff.2 (.inr ⟨heq, hkey⟩)) (hcons.trans hcmp)
            | eq hkey hcmp => exact .eq (congrArg₂ List.cons heq hkey) (hcons.trans hcmp)
            | gt hkey hcmp =>
                exact .gt (List.cons_lt_cons_iff.2 (.inr ⟨heq.symm, hkey⟩)) (hcons.trans hcmp)
          · have hne : lower (toChar ch1) ≠ lower (toChar ch2) :=
              fun he => hgt.ne' (congrArg Int8.toInt he)
            refine .gt (List.cons_lt_cons_iff.2 (.inl hgt)) ?_
            rw [icaseCompare_cons_of_ne hne]
            exact if_neg fun hlt => hgt.not_gt (Int8.lt_iff_toInt_lt.1 hlt)

theorem icaseEqualLoop_iff (h : str1.length = str2.length) :
    icaseEqualLoop toChar str1 str2 = true ↔ folded toChar str1 = folded toChar str2 := by
  induction str1 generalizing str2 with
  | nil =>
      obtain rfl := List.length_eq_zero_iff.1 h.symm
      exact iff_of_true rfl rfl
  | cons ch1 str1 ih =>
      obtain ⟨ch2, str2, rfl⟩ := List.exists_cons_of_length_eq_add_one h.symm
      have hlength : str1.length = str2.length := Nat.succ.inj h
      simp only [icaseEqualLoop, folded, List.map_cons, List.cons.injEq, Int8.toInt_inj]
      split
      case isTrue hne => simp [hne]
      case isFalse heq => simpa [folded, not_not.1 heq] using ih hlength

theorem icaseEqual_iff :
    icaseEqual toChar str1 str2 = true ↔ folded toChar str1 = folded toChar str2 := by
  by_cases hlength : str1.length = str2.length
  · rw [icaseEqual, if_neg (not_not.2 hlength)]
    exact icaseEqualLoop_iff hlength
  · rw [icaseEqual, if_pos hlength]
    refine iff_of_false Bool.false_ne_true fun heq => hlength ?_
    simpa [folded] using congrArg List.length heq

/-- The comparison that ignores case and the equality that does go together. -/
theorem icaseCompare_laws (toChar : α → Int8) :
    IsStrictWeakOrder (List α) (CiStringComparer toChar) ∧
      (∀ str1 str2, icaseCompare toChar str1 str2 = -icaseCompare toChar str2 str1) ∧
      (∀ str1 str2 str3, icaseCompare toChar str1 str2 ≤ 0 → icaseCompare toChar str2 str3 ≤ 0 →
        icaseCompare toChar str1 str3 ≤ 0) ∧
      ∀ str1 str2, icaseCompare toChar str1 str2 = 0 ↔ icaseEqual toChar str1 str2 = true := by
  have h := icaseCompare_compares toChar
  refine ⟨h.isStrictWeakOrder, h.neg, fun _ _ _ => h.trans, fun str1 str2 => ?_⟩
  rw [h.eq_zero_iff, icaseEqual_iff]

end Laws

end MyEngine.Utils
