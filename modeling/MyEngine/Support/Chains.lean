import Mathlib.Data.Fintype.Order
import Mathlib.Data.Set.Finite.Lemmas
import Mathlib.Logic.Relation

/-!
# Support — Chains

How long a chain of a relation can get that leads into a finite set.

* `Within r n a`: every chain from `a` ends before its `n`th step.
* `Within.acyclic`: then no cycle can be reached.
* `exists_within_iff`: over a finite set that is all there is to it.
-/

namespace MyEngine.Support

open Relation

variable {α : Type*} {r : α → α → Prop} {a b : α} {n m : Nat}

def Within (r : α → α → Prop) : Nat → α → Prop
  | 0, _     => False
  | n + 1, a => ∀ b, r a b → Within r n b

namespace Within

theorem succ (h : Within r n a) : Within r (n + 1) a := by
  induction n generalizing a with
  | zero => exact h.elim
  | succ n ih => exact fun b hb => ih (h b hb)

theorem mono (h : Within r n a) (hle : n ≤ m) : Within r m a := by
  induction hle with
  | refl => exact h
  | step _ ih => exact ih.succ

theorem of_reflTransGen (h : Within r n a) (hab : ReflTransGen r a b) : Within r n b := by
  induction hab with
  | refl => exact h
  | tail _ hbc ih =>
      cases n with
      | zero => exact ih.elim
      | succ n => exact succ (ih _ hbc)

theorem not_cycle (h : Within r n a) : ¬ TransGen r a a := by
  induction n with
  | zero => exact h.elim
  | succ n ih =>
      intro hcycle
      obtain ⟨b, hab, hba⟩ := TransGen.head'_iff.1 hcycle
      exact ih ((h b hab).of_reflTransGen hba) hcycle

theorem acyclic (h : Within r n a) (hab : ReflTransGen r a b) : ¬ TransGen r b b :=
  (h.of_reflTransGen hab).not_cycle

end Within

/-- Where a relation leads into a finite set, its chains from `a` are bounded just when none comes
to a cycle. -/
theorem exists_within_iff (hr : {b | ∃ a, r a b}.Finite) (a : α) :
    (∃ n, Within r n a) ↔ ∀ b, ReflTransGen r a b → ¬ TransGen r b b := by
  refine ⟨fun ⟨n, h⟩ b hab => h.acyclic hab, fun h => ?_⟩
  -- what can be reached is finite, and being reached from is an order there
  have hfinite : Finite {b // ReflTransGen r a b} := by
    refine (hr.insert a).subset fun b hab => ?_
    rcases ReflTransGen.cases_tail_iff .. |>.1 hab with rfl | ⟨c, -, hcb⟩
    · exact Set.mem_insert _ _
    · exact Set.mem_insert_of_mem _ ⟨c, hcb⟩
  have hirrefl : Std.Irrefl fun b c : {b // ReflTransGen r a b} => TransGen r c.1 b.1 :=
    ⟨fun b => h b.1 b.2⟩
  have htrans : IsTrans {b // ReflTransGen r a b} fun b c => TransGen r c.1 b.1 :=
    ⟨fun _ _ _ hab hbc => hbc.trans hab⟩
  have hwf := Finite.wellFounded_of_trans_of_irrefl
    fun b c : {b // ReflTransGen r a b} => TransGen r c.1 b.1
  have hall : ∀ b : {b // ReflTransGen r a b}, ∃ n, Within r n b.1 := by
    intro b
    induction b using hwf.induction with
    | _ b ih =>
        have hnext : Finite {c // r b.1 c} := hr.subset fun c hbc => ⟨b.1, hbc⟩
        choose n hn using fun c : {c // r b.1 c} => ih ⟨c, b.2.tail c.2⟩ (.single c.2)
        obtain ⟨m, hm⟩ := Finite.exists_le n
        exact ⟨m + 1, fun c hbc => (hn ⟨c, hbc⟩).mono (hm _)⟩
  exact hall ⟨a, .refl⟩

end MyEngine.Support
