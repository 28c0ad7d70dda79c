import Mathlib.Data.Int.Notation
import Mathlib.Data.List.TakeWhile
import MyEngine.Network.HttpParser
import MyEngine.Serialization.Json

/-!
# Lua — DebugExpression

The text that Lua is given for an expression of a watch or of a condition, of
`lua_debug_utils.cpp`: each `$name` stands for a local of the frame.

* `makeExpressionString`: the loop over the matches of a regular expression.
* `Reads`: an expression as characters and references, one way only.
* `makeExpressionString_iff`: the references are replaced, and nothing else is changed.
* `resolved_again_iff`: whether the text that is made has references of its own.
* `chunkExpression_iff`: what Lua is given, in the two modes.
-/

namespace MyEngine.Lua.DebugExpression

open Network (isspace)
open Serialization (Text)

/-! ### `MakeExpressionString` -/

def isNameChar (c : Char) : Bool := c.isAlphanum || c == '_'

/-- `std::match_results`: the text before the match, its group, and the text behind it. -/
structure Match where
  before : Text
  name : Text
  after : Text
  deriving DecidableEq, Repr

/-- The first match of `\$([A-Za-z0-9_]+)`. -/
def regexSearch : Text → Option Match
  | []       => none
  | c :: str =>
      if c = '$' ∧ str.takeWhile isNameChar ≠ [] then
        some ⟨[], str.takeWhile isNameChar, str.dropWhile isNameChar⟩
      else (regexSearch str).map fun m => { m with before := c :: m.before }

def fieldNameDebuggerState : Text := "__my_DebugSession".toList

/-- An `int` as `fmt` writes it. -/
def formatInt (n : ℤ) : Text :=
  if n < 0 then '-' :: Nat.toDigits 10 n.natAbs else Nat.toDigits 10 n.natAbs

def makeGetStackLocalCall (stackLevel : ℤ) (name : Text) : Text :=
  fieldNameDebuggerState ++ ".GetStackLocal(".toList ++ formatInt stackLevel ++
    ", \"".toList ++ name ++ "\")".toList

/-- The loop: nothing where `fuel` does not last, and what is left in `result` and `suffix`. -/
def matchLoop (stackLevel : ℤ) : (fuel : ℕ) → (str suffix result : Text) → Option (Text × Text)
  | 0, _, _, _                    => none
  | fuel + 1, str, suffix, result =>
      match regexSearch str with
      | none   => some (result, suffix)
      | some m =>
          let result := result ++ m.before ++ makeGetStackLocalCall stackLevel m.name
          if m.after.length > 0 then matchLoop stackLevel fuel m.after m.after result
          else some (result, m.after)

def makeExpressionString (expression : Text) (stackLevel : ℤ) : Option Text :=
  (matchLoop stackLevel (expression.length + 1) expression expression []).map
    fun (result, suffix) => if suffix.isEmpty then result else result ++ suffix

/-! ### `EvaluateExpression` -/

inductive EvaluateMode where
  | watch
  | repl
  deriving DecidableEq, Repr

/-- What is behind a match of `^\s*#\s*`. -/
def getReplExpression (expr : Text) : Text :=
  match expr.dropWhile isspace with
  | '#' :: rest => rest.dropWhile isspace
  | _           => []

def needToResolveDebugExpression (expression : Text) : Bool := expression.contains '$'

/-- The text that `EvaluateExpression` makes Lua execute. -/
def chunkExpression (expression : Text) (stackLevel : ℤ) (evalMode : EvaluateMode) : Option Text :=
  let replExpression := if evalMode = .repl then getReplExpression expression else []
  let actualExpression := if replExpression.isEmpty then expression else replExpression
  let chunk := if replExpression.isEmpty then "return ".toList else []
  if needToResolveDebugExpression actualExpression then
    (makeExpressionString actualExpression stackLevel).map (chunk ++ ·)
  else some (chunk ++ actualExpression)

/-! ### References -/

inductive Piece where
  | char (c : Char)
  | reference (name : Text)
  deriving DecidableEq, Repr

namespace Piece

def source : Piece → Text
  | .char c         => [c]
  | .reference name => '$' :: name

def resolved (stackLevel : ℤ) : Piece → Text
  | .char c         => [c]
  | .reference name => makeGetStackLocalCall stackLevel name

end Piece

/-- A reference is as long as it can be, and a `$` that a name is behind is part of one. -/
inductive Reads : Text → List Piece → Prop where
  | nil : Reads [] []
  | char {c : Char} {str : Text} {pieces : List Piece} (h : c = '$' → str.takeWhile isNameChar = [])
      (rest : Reads str pieces) : Reads (c :: str) (.char c :: pieces)
  | reference {str : Text} {pieces : List Piece} (h : str.takeWhile isNameChar ≠ [])
      (rest : Reads (str.dropWhile isNameChar) pieces) :
      Reads ('$' :: str) (.reference (str.takeWhile isNameChar) :: pieces)

namespace Reads

variable {str : Text} {pieces pieces' : List Piece}

theorem source_eq (h : Reads str pieces) : pieces.flatMap Piece.source = str := by
  induction h with
  | nil => rfl
  | char _ _ ih => rw [List.flatMap_cons, ih]; rfl
  | reference _ _ ih =>
      rw [List.flatMap_cons, ih, Piece.source, List.cons_append, List.takeWhile_append_dropWhile]

theorem unique (h : Reads str pieces) (h' : Reads str pieces') : pieces = pieces' := by
  induction h generalizing pieces' with
  | nil => cases h'; rfl
  | char hc _ ih =>
      cases h' with
      | char _ rest => rw [ih rest]
      | reference hname _ => exact absurd (hc rfl) hname
  | reference hname _ ih =>
      cases h' with
      | char hc _ => exact absurd (hc rfl) hname
      | reference _ rest => rw [ih rest]

/-- Every text is read. -/
theorem exists_reads (str : Text) : ∃ pieces, Reads str pieces := by
  induction hn : str.length using Nat.strong_induction_on generalizing str with
  | _ n ih =>
      subst hn
      cases str with
      | nil => exact ⟨_, .nil⟩
      | cons c str =>
          by_cases hc : c = '$' ∧ str.takeWhile isNameChar ≠ []
          · obtain ⟨rfl, hname⟩ := hc
            have hle := List.length_dropWhile_le isNameChar str
            obtain ⟨pieces, hrest⟩ := ih _ (Nat.lt_succ_of_le hle) _ rfl
            exact ⟨_, .reference hname hrest⟩
          · obtain ⟨pieces, hrest⟩ := ih _ (Nat.lt_succ_self _) str rfl
            refine ⟨_, .char (fun hdollar => ?_) hrest⟩
            by_contra hname
            exact hc ⟨hdollar, hname⟩

end Reads

/-! ### The search -/

/-- Without a match each character stands for itself. -/
theorem reads_of_search_none {str : Text} (h : regexSearch str = none) :
    Reads str (str.map .char) := by
  induction str with
  | nil => exact .nil
  | cons c str ih =>
      rw [regexSearch] at h
      split at h
      · cases h
      · next hc =>
        refine .char (fun hdollar => ?_) (ih (Option.map_eq_none_iff.1 h))
        by_contra hname
        exact hc ⟨hdollar, hname⟩

/-- What comes before the first match, the match, and what is read behind it. -/
theorem reads_of_search_some {str : Text} {m : Match} {pieces : List Piece}
    (h : regexSearch str = some m) (hafter : Reads m.after pieces) :
    Reads str (m.before.map .char ++ .reference m.name :: pieces) := by
  induction str generalizing m with
  | nil => cases h
  | cons c str ih =>
      rw [regexSearch] at h
      split at h
      · next hc =>
        obtain rfl := Option.some.inj h
        obtain ⟨rfl, hname⟩ := hc
        exact .reference hname hafter
      · next hc =>
        obtain ⟨m', hm', rfl⟩ := Option.map_eq_some_iff.1 h
        refine .char (fun hdollar => ?_) (ih hm' hafter)
        by_contra hname
        exact hc ⟨hdollar, hname⟩

theorem length_after_lt {str : Text} {m : Match} (h : regexSearch str = some m) :
    m.after.length < str.length := by
  induction str generalizing m with
  | nil => cases h
  | cons c str ih =>
      rw [regexSearch] at h
      split at h
      · obtain rfl := Option.some.inj h
        exact Nat.lt_succ_of_le (List.length_dropWhile_le isNameChar str)
      · obtain ⟨m', hm', rfl⟩ := Option.map_eq_some_iff.1 h
        exact Nat.lt_succ_of_lt (ih (m := m') hm')

theorem flatMap_resolved_char (stackLevel : ℤ) (str : Text) :
    (str.map Piece.char).flatMap (Piece.resolved stackLevel) = str := by
  induction str with
  | nil => rfl
  | cons c str ih => rw [List.map_cons, List.flatMap_cons, ih]; rfl

/-- The loop comes to its end, and what it leaves is what is read with the references resolved. -/
theorem matchLoop_eq (stackLevel : ℤ) {fuel : ℕ} {str : Text} (hfuel : str.length < fuel)
    (result : Text) : ∃ pieces result' suffix, Reads str pieces ∧
      matchLoop stackLevel fuel str str result = some (result', suffix) ∧
      result' ++ suffix = result ++ pieces.flatMap (Piece.resolved stackLevel) := by
  induction fuel generalizing str result with
  | zero => exact absurd hfuel (Nat.not_lt_zero _)
  | succ fuel ih =>
      rw [matchLoop]
      cases hsearch : regexSearch str with
      | none =>
          refine ⟨_, result, str, reads_of_search_none hsearch, rfl, ?_⟩
          rw [flatMap_resolved_char]
      | some m =>
          have hlt := length_after_lt hsearch
          have hresolved : ∀ pieces : List Piece,
              (m.before.map Piece.char ++ Piece.reference m.name :: pieces).flatMap
                (Piece.resolved stackLevel) =
              m.before ++ (makeGetStackLocalCall stackLevel m.name ++
                pieces.flatMap (Piece.resolved stackLevel)) := by
            intro pieces
            rw [List.flatMap_append, flatMap_resolved_char, List.flatMap_cons]
            rfl
          simp only
          split
          · obtain ⟨pieces, result', suffix, hreads, hloop, heq⟩ := ih
              (show m.after.length < fuel by omega)
              (result ++ m.before ++ makeGetStackLocalCall stackLevel m.name)
            refine ⟨_, result', suffix, reads_of_search_some hsearch hreads, hloop, ?_⟩
            rw [heq, hresolved]
            simp only [List.append_assoc]
          · next hempty =>
            have hafter : m.after = [] := List.length_eq_zero_iff.1 (by omega)
            have hreads : Reads m.after [] := hafter ▸ .nil
            refine ⟨_, _, _, reads_of_search_some hsearch hreads, rfl, ?_⟩
            rw [hresolved, hafter]
            simp only [List.append_assoc, List.flatMap_nil, List.append_nil]

/-- **Rewriting.**  The text of every expression is made, and it is the expression with each of its
references replaced by a call. -/
theorem makeExpressionString_iff (expression : Text) (stackLevel : ℤ) (result : Text) :
    makeExpressionString expression stackLevel = some result ↔
      ∃ pieces, Reads expression pieces ∧
        result = pieces.flatMap (Piece.resolved stackLevel) := by
  obtain ⟨pieces, result', suffix, hreads, hloop, heq⟩ :=
    matchLoop_eq stackLevel (Nat.lt_succ_self expression.length) []
  have hmake : makeExpressionString expression stackLevel =
      some (pieces.flatMap (Piece.resolved stackLevel)) := by
    rw [makeExpressionString, hloop, Option.map_some, ← List.nil_append (pieces.flatMap _), ← heq]
    cases suffix with
    | nil => rw [List.append_nil]; rfl
    | cons c suffix => rfl
  rw [hmake]
  constructor
  · intro h
    exact ⟨pieces, hreads, (Option.some.inj h).symm⟩
  · rintro ⟨pieces', hreads', rfl⟩
    rw [hreads.unique hreads']

/-! ### Rewriting twice -/

theorem reads_iff_search_none {str : Text} :
    Reads str (str.map .char) ↔ regexSearch str = none := by
  refine ⟨fun h => ?_, reads_of_search_none⟩
  induction str with
  | nil => rfl
  | cons c str ih =>
      cases h with
      | char hc rest => rw [regexSearch, if_neg fun h => h.2 (hc h.1), ih rest, Option.map_none]

/-- Text without a `$` in front changes nothing. -/
theorem search_append_none {str rest : Text} (h : '$' ∉ str) :
    regexSearch (str ++ rest) = none ↔ regexSearch rest = none := by
  induction str with
  | nil => rfl
  | cons c str ih =>
      have hc : c ≠ '$' := fun hc => h (hc ▸ List.mem_cons_self)
      rw [List.cons_append, regexSearch, if_neg fun h => hc h.1, Option.map_eq_none_iff]
      exact ih fun hmem => h (List.mem_cons_of_mem _ hmem)

theorem dollar_notMem_formatInt (n : ℤ) : '$' ∉ formatInt n := by
  have hdigits : '$' ∉ Nat.toDigits 10 n.natAbs := by
    intro hmem
    have hdigit := Nat.isDigit_of_mem_toDigits (by decide) (by decide) hmem
    exact absurd hdigit (by decide)
  unfold formatInt
  split
  · rw [List.mem_cons, not_or]
    exact ⟨by decide, hdigits⟩
  · exact hdigits

theorem dollar_notMem_call (stackLevel : ℤ) {name : Text} (h : '$' ∉ name) :
    '$' ∉ makeGetStackLocalCall stackLevel name := by
  simp only [makeGetStackLocalCall, List.mem_append, not_or]
  exact ⟨⟨⟨⟨⟨by decide, by decide⟩, dollar_notMem_formatInt stackLevel⟩, by decide⟩, h⟩, by decide⟩

theorem dollar_notMem_name (str : Text) : '$' ∉ str.takeWhile isNameChar :=
  fun h => absurd (List.mem_takeWhile_imp h) (by decide)

/-- A `$` stands directly in front of a reference. -/
def Adjoins : List Piece → Prop
  | .char c :: pieces      =>
      (c = '$' ∧ ∃ name rest, pieces = .reference name :: rest) ∨ Adjoins pieces
  | .reference _ :: pieces => Adjoins pieces
  | []                     => False

/-- The characters that a name may go on with. -/
theorem takeWhile_resolved {str : Text} {pieces : List Piece} (stackLevel : ℤ)
    (h : Reads str pieces) (hstr : str.takeWhile isNameChar = []) :
    (pieces.flatMap (Piece.resolved stackLevel)).takeWhile isNameChar ≠ [] ↔
      ∃ name rest, pieces = .reference name :: rest := by
  cases h with
  | nil => simp
  | char hc rest =>
      rename_i c str pieces
      have hnot : isNameChar c = false := by
        by_contra hname
        rw [List.takeWhile_cons_of_pos (eq_true_of_ne_false hname)] at hstr
        cases hstr
      rw [List.flatMap_cons, Piece.resolved, List.singleton_append,
        List.takeWhile_cons_of_neg (by simp [hnot])]
      simp
  | reference _ _ =>
      constructor
      · intro _
        exact ⟨_, _, rfl⟩
      · intro _ hcontra
        cases hcontra

theorem search_resolved_none {str : Text} {pieces : List Piece} (stackLevel : ℤ)
    (h : Reads str pieces) :
    regexSearch (pieces.flatMap (Piece.resolved stackLevel)) = none ↔ ¬ Adjoins pieces := by
  induction h with
  | nil => simp [regexSearch, Adjoins]
  | @char c str pieces hc rest ih =>
      rw [List.flatMap_cons, Piece.resolved, List.singleton_append, regexSearch, Adjoins, not_or,
        ← ih]
      by_cases hdollar : c = '$'
      · simp only [hdollar, true_and, ← takeWhile_resolved stackLevel rest (hc hdollar)]
        by_cases hadjoins : (pieces.flatMap (Piece.resolved stackLevel)).takeWhile isNameChar = []
        · simp only [hadjoins, ne_eq, not_true_eq_false, if_false, Option.map_eq_none_iff,
            not_false_eq_true, true_and]
        · simp only [hadjoins, ne_eq, not_false_eq_true, if_true, reduceCtorEq, not_true_eq_false,
            false_and]
      · simp only [hdollar, false_and, if_false, Option.map_eq_none_iff, not_false_eq_true,
          true_and]
  | reference hname rest ih =>
      rw [List.flatMap_cons, Piece.resolved, Adjoins, ← ih]
      exact search_append_none (dollar_notMem_call stackLevel (dollar_notMem_name _))

theorem length_source_le (stackLevel : ℤ) (pieces : List Piece) :
    (pieces.flatMap Piece.source).length ≤
      (pieces.flatMap (Piece.resolved stackLevel)).length := by
  induction pieces with
  | nil => exact Nat.le_refl _
  | cons piece pieces ih =>
      rw [List.flatMap_cons, List.flatMap_cons, List.length_append, List.length_append]
      refine Nat.add_le_add ?_ ih
      cases piece with
      | char c => exact Nat.le_refl _
      | reference name =>
          simp only [Piece.source, Piece.resolved, makeGetStackLocalCall, List.length_append,
            List.length_cons]
          have hfield : 1 ≤ fieldNameDebuggerState.length := by decide
          omega

/-- A text with a reference gets longer. -/
theorem length_source_lt (stackLevel : ℤ) (before after : List Piece) (name : Text) :
    ((before ++ .reference name :: after).flatMap Piece.source).length <
      ((before ++ .reference name :: after).flatMap (Piece.resolved stackLevel)).length := by
  have hbefore := length_source_le stackLevel before
  have hafter := length_source_le stackLevel after
  have hfield : 2 ≤ fieldNameDebuggerState.length := by decide
  simp only [List.flatMap_append, List.flatMap_cons, List.length_append, Piece.source,
    Piece.resolved, makeGetStackLocalCall, List.length_cons]
  omega

/-- A text that stays as it is has no references. -/
theorem makeExpressionString_self_iff (str : Text) (stackLevel : ℤ) :
    makeExpressionString str stackLevel = some str ↔ regexSearch str = none := by
  rw [makeExpressionString_iff]
  constructor
  · rintro ⟨pieces, hreads, heq⟩
    refine reads_iff_search_none.1 ?_
    by_cases hchars : ∀ piece ∈ pieces, ∃ c, piece = .char c
    · -- characters only: they are those of the text
      have hmap : pieces = str.map .char := by
        rw [← hreads.source_eq]
        clear hreads heq
        induction pieces with
        | nil => rfl
        | cons piece pieces ih =>
            obtain ⟨c, rfl⟩ := hchars piece List.mem_cons_self
            rw [List.flatMap_cons, List.map_append,
              ← ih fun piece hp => hchars piece (List.mem_cons_of_mem _ hp)]
            rfl
      exact hmap ▸ hreads
    · simp only [not_forall, not_exists] at hchars
      obtain ⟨piece, hmem, hpiece⟩ := hchars
      cases piece with
      | char c => exact absurd rfl (hpiece c)
      | reference name =>
          obtain ⟨before, after, rfl⟩ := List.append_of_mem hmem
          have hlt := length_source_lt stackLevel before after name
          rw [hreads.source_eq, ← heq] at hlt
          exact absurd hlt (Nat.lt_irrefl _)
  · intro h
    exact ⟨_, reads_iff_search_none.2 h, (flatMap_resolved_char stackLevel str).symm⟩

/-- **Rewriting again.**  The text that is made is one that nothing is left to do for, just when no
`$` stands directly in front of a reference. -/
theorem resolved_again_iff {expression : Text} {pieces : List Piece}
    (h : Reads expression pieces) (stackLevel : ℤ) :
    (makeExpressionString expression stackLevel).bind (makeExpressionString · stackLevel) =
        makeExpressionString expression stackLevel ↔ ¬ Adjoins pieces := by
  rw [(makeExpressionString_iff ..).2 ⟨pieces, h, rfl⟩, Option.bind_some,
    makeExpressionString_self_iff, search_resolved_none stackLevel h]

theorem resolved_again_a : ¬ (makeExpressionString "$$a".toList 0).bind
    (makeExpressionString · 0) = makeExpressionString "$$a".toList 0 := by
  have hreads : Reads "$$a".toList [.char '$', .reference ['a']] :=
    .char (by decide) (.reference (by decide) .nil)
  intro hagain
  exact (resolved_again_iff hreads 0).1 hagain (.inl ⟨rfl, _, _, rfl⟩)

/-! ### What Lua is given -/

theorem reads_of_notMem {str : Text} (h : '$' ∉ str) : Reads str (str.map .char) := by
  induction str with
  | nil => exact .nil
  | cons c str ih =>
      refine .char (fun hc => ?_) (ih fun hmem => h (List.mem_cons_of_mem _ hmem))
      exact absurd (hc ▸ List.mem_cons_self) h

/-- A statement, for `evalMode` and an expression that starts with `#`: the text behind. -/
def Statement (evalMode : EvaluateMode) (expression body : Text) : Prop :=
  evalMode = .repl ∧ body ≠ [] ∧ (∀ c ∈ body.head?, isspace c = false) ∧
    ∃ indent gap, (∀ c ∈ indent ++ gap, isspace c = true) ∧
      expression = indent ++ '#' :: gap ++ body

theorem dropWhile_spaces {spaces rest : Text} (h : ∀ c ∈ spaces, isspace c = true)
    (hrest : ∀ c ∈ rest.head?, isspace c = false) : (spaces ++ rest).dropWhile isspace = rest := by
  induction spaces with
  | nil =>
      cases rest with
      | nil => rfl
      | cons c rest => exact List.dropWhile_cons_of_neg (by simp [hrest c rfl])
  | cons c spaces ih =>
      rw [List.cons_append, List.dropWhile_cons_of_pos (h c List.mem_cons_self)]
      exact ih fun c hc => h c (List.mem_cons_of_mem _ hc)

theorem statement_iff {evalMode : EvaluateMode} {expression body : Text} :
    Statement evalMode expression body ↔
      evalMode = .repl ∧ body ≠ [] ∧ getReplExpression expression = body := by
  refine and_congr_right fun _ => and_congr_right fun hbody => ?_
  constructor
  · rintro ⟨hhead, indent, gap, hspaces, rfl⟩
    have hindent : (indent ++ '#' :: gap ++ body).dropWhile isspace = '#' :: (gap ++ body) := by
      rw [List.append_assoc]
      refine dropWhile_spaces (fun c hc => hspaces c (List.mem_append_left _ hc)) fun c hc => ?_
      obtain rfl : '#' = c := Option.some.inj hc
      rfl
    rw [getReplExpression, hindent]
    exact dropWhile_spaces (fun c hc => hspaces c (List.mem_append_right _ hc)) hhead
  · intro h
    unfold getReplExpression at h
    split at h
    · next rest hrest =>
      refine ⟨fun c hc => ?_, expression.takeWhile isspace, rest.takeWhile isspace,
        fun c hc => ?_, ?_⟩
      · have hnot := List.head?_dropWhile_not isspace rest
        rw [h, Option.mem_def.1 hc] at hnot
        simpa using hnot
      · exact (List.mem_append.1 hc).elim List.mem_takeWhile_imp List.mem_takeWhile_imp
      · rw [← h, List.append_assoc, List.cons_append, List.takeWhile_append_dropWhile, ← hrest,
          List.takeWhile_append_dropWhile]
    · exact absurd h.symm hbody

/-- **Chunks.**  Lua is always given a text.  It is the text behind `#`, for a statement, or
`return` and the expression, with the references resolved. -/
theorem chunkExpression_iff (expression : Text) (stackLevel : ℤ) (evalMode : EvaluateMode)
    (chunk : Text) :
    chunkExpression expression stackLevel evalMode = some chunk ↔
      ∃ start body pieces, Reads body pieces ∧
        chunk = start ++ pieces.flatMap (Piece.resolved stackLevel) ∧
        (start = [] ∧ Statement evalMode expression body ∨
          start = "return ".toList ∧ body = expression ∧
            ∀ body, ¬ Statement evalMode expression body) := by
  -- the test for a `$` saves the loop where it would change nothing
  have hresolve : ∀ body : Text, ∃ pieces, Reads body pieces ∧
      (if needToResolveDebugExpression body then makeExpressionString body stackLevel
        else some body) = some (pieces.flatMap (Piece.resolved stackLevel)) := by
    intro body
    split
    · obtain ⟨pieces, hreads⟩ := Reads.exists_reads body
      exact ⟨pieces, hreads, (makeExpressionString_iff ..).2 ⟨pieces, hreads, rfl⟩⟩
    · next hdollar =>
      have hnotMem : '$' ∉ body := fun hmem => hdollar (List.contains_iff_mem.2 hmem)
      exact ⟨_, reads_of_notMem hnotMem, by rw [flatMap_resolved_char]⟩
  have hchunk : ∀ start body : Text, (if needToResolveDebugExpression body then
      (makeExpressionString body stackLevel).map (start ++ ·) else some (start ++ body)) =
      (if needToResolveDebugExpression body then makeExpressionString body stackLevel
        else some body).map (start ++ ·) := by
    intro start body
    split <;> rfl
  have hstatement : ∀ body, Statement evalMode expression body ↔
      (if evalMode = .repl then getReplExpression expression else []) = body ∧ body ≠ [] := by
    intro body
    rw [statement_iff]
    split
    · next hmode => simp only [hmode, true_and, and_comm]
    · next hmode =>
      simp only [hmode, false_and, false_iff, not_and, not_not]
      exact Eq.symm
  simp only [chunkExpression, hchunk]
  generalize (if evalMode = .repl then getReplExpression expression else []) = repl at hstatement
  cases repl with
  | nil =>
      obtain ⟨pieces, hreads, heq⟩ := hresolve expression
      simp only [List.isEmpty_nil, if_true, heq, Option.map_some, Option.some.injEq]
      constructor
      · rintro rfl
        refine ⟨_, _, pieces, hreads, rfl, .inr ⟨rfl, rfl, fun body hbody => ?_⟩⟩
        obtain ⟨rfl, hne⟩ := (hstatement body).1 hbody
        exact hne rfl
      · rintro ⟨start, body, pieces', hreads', rfl, ⟨-, hbody⟩ | ⟨rfl, rfl, -⟩⟩
        · obtain ⟨rfl, hne⟩ := (hstatement body).1 hbody
          exact absurd rfl hne
        · rw [hreads.unique hreads']
  | cons c repl =>
      obtain ⟨pieces, hreads, heq⟩ := hresolve (c :: repl)
      have hbody := (hstatement _).2 ⟨rfl, List.cons_ne_nil c repl⟩
      simp only [List.isEmpty_cons, Bool.false_eq_true, if_false, heq, Option.map_some,
        Option.some.injEq]
      constructor
      · rintro rfl
        exact ⟨_, _, pieces, hreads, rfl, .inl ⟨rfl, hbody⟩⟩
      · rintro ⟨start, body, pieces', hreads', rfl, ⟨rfl, hbody'⟩ | ⟨-, -, hnot⟩⟩
        · obtain ⟨rfl, -⟩ := (hstatement body).1 hbody'
          rw [hreads.unique hreads']
        · exact absurd hbody (hnot _)

end MyEngine.Lua.DebugExpression
