import Mathlib.Algebra.Group.Int.Defs
import Mathlib.Algebra.Group.Nat.Defs
import Mathlib.Data.List.Lemmas
import MyEngine.Network.HttpParser
import MyEngine.Utils.SplitSequence

/-!
# Utils — RuntimeEnum

The names and values that `MY_DEFINE_ENUM` finds out about an enumeration, of `runtime_enum.h` and
`runtime_enum.cpp`: the names from the text of its definition, the values from variables that are
declared under the names.

* `enumerators`: the values as the language gives them; `counters_eq`: those of the variables.
* `parseEnumDefinition_eq`: the names are those of the definition just when no initializer has a
  comma.
* `parse_iff`: a name is parsed as its enumerator, whatever the case of its letters.
* `reflects_iff`: the definitions for which all of it works.
-/

namespace MyEngine.Enums

open Network (icaseEqual)
open Strings

/-! ### Definitions -/

/-- The type that an enumeration is given. -/
structure IntType where
  bits : ℕ
  isSigned : Bool
  deriving DecidableEq, Repr

/-- The conversion to the type. -/
def IntType.cast (t : IntType) (n : ℤ) : ℤ :=
  if t.isSigned then n.bmod (2 ^ t.bits) else n % 2 ^ t.bits

def IntType.int : IntType := ⟨32, true⟩

/-- An enumerator as it is written, between spaces, and the value of its initializer. -/
structure Enumerator where
  indent : ℕ := 0
  name : List Char
  gap : ℕ := 0
  initializer : Option (List Char × ℤ) := none
  deriving DecidableEq, Repr

/-- The text behind the name. -/
def Enumerator.initText (e : Enumerator) : List Char :=
  match e.initializer with
  | some (text, _) => '=' :: text
  | none           => []

def Enumerator.text (e : Enumerator) : List Char :=
  List.replicate e.indent ' ' ++ e.name ++ List.replicate e.gap ' ' ++ e.initText

/-- What `#__VA_ARGS__` is. -/
def definitionText (decl : List Enumerator) : List Char := [','].intercalate (decl.map (·.text))

/-- The values as the language defines them, from one on. -/
def enumerators : (next : ℤ) → List Enumerator → List ℤ
  | _, []           => []
  | next, e :: decl =>
      let value := (e.initializer.map Prod.snd).getD next
      value :: enumerators (value + 1) decl

/-! ### `runtime_enum.h` -/

/-- The variables of type `EnumValueCounter`, with `s_enumValueCounter`. -/
def counters (t : IntType) : (enumValueCounter : ℤ) → List Enumerator → List ℤ
  | _, []                       => []
  | enumValueCounter, e :: decl =>
      let value := match e.initializer with
        | some (_, v) => t.cast v
        | none        => enumValueCounter
      value :: counters t (t.cast (value + 1)) decl

/-- `EnumRuntimeInfoImpl`. -/
structure EnumRuntimeInfo where
  strValues : List (List Char)
  intValues : List ℤ
  deriving DecidableEq, Repr

/-! ### `runtime_enum.cpp` -/

def parseSingleEnumEntry (enumStr : List Char) : List Char :=
  match findFirstOf enumStr ['='] 0 with
  | none     => (Network.trim { text := enumStr }).text
  | some pos => (Network.trim { text := enumStr.take pos }).text

/-- The loop, which writes to `result`; nothing where it would write behind its end. -/
def writeEntries (result : List (List Char)) : (index : ℕ) → List (List Char) →
    Option (List (List Char))
  | _, []                                 => some result
  | index, singleEnumString :: enumString =>
      if index < result.length then
        writeEntries (result.set index (parseSingleEnumEntry singleEnumString)) (index + 1)
          enumString
      else none

def parseEnumDefinition (enumDefinitionString : List Char) (itemCount : ℕ) :
    Option (List (List Char)) :=
  (SplitSequence.first ⟨enumDefinitionString, [',']⟩).iterate.bind
    (writeEntries (List.replicate itemCount []) 0)

/-- `getEnumInternalInfo`, that the macro defines. -/
def getEnumInternalInfo (t : IntType) (decl : List Enumerator) : Option EnumRuntimeInfo :=
  (parseEnumDefinition (definitionText decl) decl.length).map fun strValues =>
    ⟨strValues, (counters t 0 decl).map IntType.int.cast⟩

namespace EnumRuntimeInfo

/-- `EnumTraitsHelper::toString`. -/
def toString (enumInfo : EnumRuntimeInfo) (value : ℤ) : List Char :=
  match enumInfo.intValues.findIdx? (· = value) with
  | none       => []
  | some index => (enumInfo.strValues[index]?).getD []

/-- `EnumTraitsHelper::parse`. -/
def parse (enumInfo : EnumRuntimeInfo) (str : List Char) : Except (List Char) ℤ :=
  match enumInfo.strValues.findIdx? fun strValue => icaseEqual str strValue with
  | none       => .error ("Invalid enum value (".toList ++ str ++ ")".toList)
  | some index => .ok ((enumInfo.intValues[index]?).getD 0)

end EnumRuntimeInfo

/-- `EnumTraits::toString`. -/
def traitsToString (enumInfo : EnumRuntimeInfo) (value : ℤ) : List Char :=
  enumInfo.toString (IntType.int.cast value)

/-- `EnumTraits::parse`. -/
def traitsParse (t : IntType) (enumInfo : EnumRuntimeInfo) (str : List Char) :
    Except (List Char) ℤ :=
  (enumInfo.parse str).map t.cast

/-! ### Values -/

/-- The variables have the values of the enumerators, if the type can hold these. -/
theorem counters_eq {t : IntType} {decl : List Enumerator} {counter next : ℤ}
    (hcounter : counter = t.cast next) (h : ∀ v ∈ enumerators next decl, t.cast v = v) :
    counters t counter decl = enumerators next decl := by
  induction decl generalizing counter next with
  | nil => rfl
  | cons e decl ih =>
      rw [enumerators] at h ⊢
      have hvalue : (match e.initializer with
          | some (_, v) => t.cast v
          | none        => counter) = (e.initializer.map Prod.snd).getD next := by
        have hcast := h _ List.mem_cons_self
        cases hinit : e.initializer with
        | some init =>
            rw [hinit] at hcast
            exact hcast
        | none =>
            rw [hinit] at hcast
            exact hcounter.trans hcast
      rw [counters, hvalue]
      exact congrArg _ (ih rfl fun v hv => h v (List.mem_cons_of_mem _ hv))

theorem length_enumerators (next : ℤ) (decl : List Enumerator) :
    (enumerators next decl).length = decl.length := by
  induction decl generalizing next with
  | nil => rfl
  | cons e decl ih => rw [enumerators, List.length_cons, List.length_cons, ih]

/-! ### Names -/

/-- A name of the language. -/
def Identifier (name : List Char) : Prop := name ≠ [] ∧ ∀ c ∈ name, c ≠ ' ' ∧ c ≠ ',' ∧ c ≠ '='

instance : DecidablePred Identifier := fun _ => inferInstanceAs (Decidable (_ ∧ _))

theorem dropWhile_replicate_append {n : ℕ} {s : List Char} (h : s.head? ≠ some ' ') :
    (List.replicate n ' ' ++ s).dropWhile (· = ' ') = s := by
  induction n with
  | zero =>
      cases s with
      | nil => rfl
      | cons c s => exact List.dropWhile_cons_of_neg (by simpa using h)
  | succ n ih => rw [List.replicate_succ, List.cons_append, List.dropWhile_cons_of_pos rfl, ih]

theorem trim_text (str : List Char) : (Network.trim { text := str }).text =
    ((str.reverse.dropWhile (· = ' ')).reverse).dropWhile (· = ' ') := by
  have hstart : ∀ v : Network.View, (Network.trimStart v).text = v.text.dropWhile (· = ' ') := by
    intro v
    by_cases h : v.text.dropWhile (· = ' ') = []
    · simp only [Network.trimStart, h, if_true]
    · simp only [Network.trimStart, if_neg h]
  exact hstart _

/-- The spaces around a name are trimmed. -/
theorem trim_spaces {name : List Char} (h : Identifier name) (n m : ℕ) :
    (Network.trim { text := List.replicate n ' ' ++ name ++ List.replicate m ' ' }).text =
      name := by
  have hhead : name.head? ≠ some ' ' := fun hc => (h.2 _ (List.mem_of_head? hc)).1 rfl
  have hlast : (List.replicate n ' ' ++ name).reverse.head? ≠ some ' ' := by
    rw [List.head?_reverse, List.getLast?_append_of_ne_nil _ h.1]
    exact fun hc => (h.2 _ (List.mem_of_getLast? hc)).1 rfl
  rw [trim_text, List.reverse_append, List.reverse_replicate, dropWhile_replicate_append hlast,
    List.reverse_reverse, dropWhile_replicate_append hhead]

theorem equals_notMem {e : Enumerator} (h : Identifier e.name) :
    '=' ∉ List.replicate e.indent ' ' ++ e.name ++ List.replicate e.gap ' ' := by
  intro hmem
  rcases List.mem_append.1 hmem with hmem | hmem
  · rcases List.mem_append.1 hmem with hmem | hmem
    · exact absurd (List.eq_of_mem_replicate hmem) (by decide)
    · exact (h.2 _ hmem).2.2 rfl
  · exact absurd (List.eq_of_mem_replicate hmem) (by decide)

/-- What is in front of the `=`, without its spaces. -/
theorem parseSingleEnumEntry_text {e : Enumerator} (h : Identifier e.name) :
    parseSingleEnumEntry e.text = e.name := by
  set entry := List.replicate e.indent ' ' ++ e.name ++ List.replicate e.gap ' ' with hentry
  have hnone : entry.findIdx? (fun c => decide (c ∈ ['='])) = none := by
    refine List.findIdx?_eq_none_iff.2 fun c hc => decide_eq_false fun hmem => ?_
    exact equals_notMem h (List.mem_singleton.1 hmem ▸ hc)
  cases hinit : e.initializer with
  | none =>
      have htext : e.text = entry := by
        rw [Enumerator.text, Enumerator.initText, hinit]
        exact List.append_nil _
      have hfind : findFirstOf e.text ['='] 0 = none := by
        rw [findFirstOf, List.drop_zero, htext, hnone, Option.map_none]
      rw [parseSingleEnumEntry, hfind, htext]
      exact trim_spaces h e.indent e.gap
  | some init =>
      have htext : e.text = entry ++ '=' :: init.1 := by
        rw [Enumerator.text, Enumerator.initText, hinit]
      have hfind : findFirstOf e.text ['='] 0 = some entry.length := by
        rw [findFirstOf, List.drop_zero, htext, List.findIdx?_append, hnone, Option.none_or,
          List.findIdx?_cons, if_pos (by decide), Option.map_some, Option.map_some, Nat.zero_add,
          Nat.zero_add]
      rw [parseSingleEnumEntry, hfind, htext]
      simp only [List.take_left]
      exact trim_spaces h e.indent e.gap

/-! ### The definition -/

/-- What is written behind what has been. -/
theorem writeEntries_eq (written rest entries : List (List Char)) :
    writeEntries (written ++ rest) written.length entries =
      if entries.length ≤ rest.length then
        some (written ++ entries.map parseSingleEnumEntry ++ rest.drop entries.length)
      else none := by
  induction entries generalizing written rest with
  | nil => simp [writeEntries]
  | cons entry entries ih =>
      rw [writeEntries]
      cases rest with
      | nil => simp
      | cons first rest =>
          have hset : (written ++ first :: rest).set written.length (parseSingleEnumEntry entry) =
              (written ++ [parseSingleEnumEntry entry]) ++ rest := by simp
          have hlength :
              written.length + 1 = (written ++ [parseSingleEnumEntry entry]).length := by simp
          rw [if_pos (by simp), hset, hlength, ih]
          simp

theorem splitOnP_comma (str : List Char) :
    str.splitOnP (fun c => decide (c ∈ [','])) = str.splitOn ',' := by
  have hfun : (fun c => decide (c ∈ [','])) = (fun c : Char => c == ',') := by
    funext c
    rw [Bool.eq_iff_iff, decide_eq_true_eq, List.mem_singleton, beq_iff_eq]
  rw [List.splitOn, hfun]

theorem intercalate_cons (entry next : List Char) (entries : List (List Char)) :
    [','].intercalate (entry :: next :: entries) =
      entry ++ ',' :: [','].intercalate (next :: entries) := by
  simp [List.intercalate]

theorem count_intercalate {entries : List (List Char)} (h : entries ≠ []) :
    ([','].intercalate entries).count ',' + 1 = entries.length + entries.flatten.count ',' := by
  induction entries with
  | nil => exact absurd rfl h
  | cons entry entries ih =>
      cases entries with
      | nil => simp [List.intercalate, Nat.add_comm]
      | cons next entries =>
          have hrest := ih (List.cons_ne_nil next entries)
          rw [intercalate_cons, List.flatten_cons, List.count_append, List.count_append,
            List.count_cons_self, hrest, List.length_cons (a := entry)]
          omega

/-- How many pieces a definition is split into. -/
theorem length_pieces {entries : List (List Char)} (h : entries ≠ []) :
    (([','].intercalate entries).splitOn ',').length =
      entries.length + entries.flatten.count ',' := by
  rw [← count_intercalate h, List.count_eq_length_filter]
  exact SplitSequence.length_splitOnP _ _

/-- The names of a definition, where it is split at the commas between the enumerators only. -/
theorem parseEnumDefinition_eq {decl : List Enumerator} (hne : decl ≠ [])
    (h : ∀ e ∈ decl, Identifier e.name) :
    parseEnumDefinition (definitionText decl) decl.length =
      if ∀ e ∈ decl, ',' ∉ e.initText then some (decl.map (·.name)) else none := by
  set entries := decl.map (·.text) with hentries
  have hlength : entries.length = decl.length := List.length_map _
  have hnonempty : entries ≠ [] := fun hnil => hne (List.map_eq_nil_iff.1 hnil)
  have hcomma : ∀ e ∈ decl, ',' ∈ e.text ↔ ',' ∈ e.initText := by
    intro e he
    have hname : ',' ∉ e.name := fun hmem => ((h e he).2 _ hmem).2.1 rfl
    have hspaces : ∀ n, ',' ∉ List.replicate n ' ' := by
      intro n hmem
      exact absurd (List.eq_of_mem_replicate hmem) (by decide)
    simp only [Enumerator.text, List.mem_append, hspaces, hname, or_false, false_or]
  have htext : definitionText decl ≠ [] := by
    obtain ⟨e, decl', rfl⟩ := List.exists_cons_of_ne_nil hne
    have hentry : e.text ≠ [] := by
      simp [Enumerator.text, (h e List.mem_cons_self).1]
    rw [definitionText, List.map_cons]
    cases decl'.map (·.text) with
    | nil => simpa [List.intercalate] using hentry
    | cons next rest =>
        rw [intercalate_cons]
        exact List.append_ne_nil_of_left_ne_nil hentry _
  have hpieces : (SplitSequence.first ⟨definitionText decl, [',']⟩).iterate =
      some ((definitionText decl).splitOn ',') := by
    rw [(SplitSequence.reads_first _).iterate_eq, SplitSequence.elements, if_neg htext,
      splitOnP_comma]
  have hwrite := writeEntries_eq [] (List.replicate decl.length [])
    ((definitionText decl).splitOn ',')
  rw [List.nil_append, List.length_nil, List.length_replicate] at hwrite
  rw [parseEnumDefinition, hpieces, Option.bind_some, hwrite]
  by_cases hall : ∀ e ∈ decl, ',' ∉ e.initText
  · have hsplit : (definitionText decl).splitOn ',' = entries := by
      refine List.splitOn_intercalate ',' ?_ hnonempty
      intro entry hentry hmem
      obtain ⟨e, he, rfl⟩ := List.mem_map.1 hentry
      exact hall e he ((hcomma e he).1 hmem)
    have hnames : entries.map parseSingleEnumEntry = decl.map (·.name) := by
      rw [hentries, List.map_map]
      exact List.map_congr_left fun e he => parseSingleEnumEntry_text (h e he)
    rw [if_pos hall, hsplit, hlength, if_pos (Nat.le_refl _), hnames]
    simp
  · rw [if_neg hall, if_neg]
    have hcount : 0 < entries.flatten.count ',' := by
      simp only [not_forall, not_not] at hall
      obtain ⟨e, he, hmem⟩ := hall
      exact List.count_pos_iff.2
        (List.mem_flatten.2 ⟨e.text, List.mem_map_of_mem he, (hcomma e he).2 hmem⟩)
    rw [definitionText, length_pieces hnonempty, hlength]
    omega

/-! ### Round trips -/

section Traits

variable {t : IntType} {names : List (List Char)} {values : List ℤ} {p : List Char × ℤ}

/-- What the macro keeps of names and values. -/
def infoOf (names : List (List Char)) (values : List ℤ) : EnumRuntimeInfo :=
  ⟨names, values.map IntType.int.cast⟩

theorem mem_zip_of_getElem? {i : ℕ} {name : List Char} {value : ℤ} (hname : names[i]? = some name)
    (hvalue : values[i]? = some value) : (name, value) ∈ names.zip values :=
  List.mem_of_getElem? (List.getElem?_zip_eq_some.2 ⟨hname, hvalue⟩)

/-- A name is parsed as an enumerator that has it. -/
theorem traitsParse_of_mem (t : IntType) (hlength : names.length = values.length)
    (hp : p ∈ names.zip values) {str : List Char} (hstr : icaseEqual str p.1) :
    ∃ q ∈ names.zip values, icaseEqual str q.1 ∧
      traitsParse t (infoOf names values) str = .ok (t.cast (IntType.int.cast q.2)) := by
  have hname := (List.of_mem_zip hp).1
  have hsome : (names.findIdx? fun strValue => icaseEqual str strValue).isSome := by
    rw [List.findIdx?_isSome, List.any_eq_true]
    exact ⟨p.1, hname, decide_eq_true hstr⟩
  obtain ⟨k, hk⟩ := Option.isSome_iff_exists.1 hsome
  obtain ⟨hlt, hequal, -⟩ := List.findIdx?_eq_some_iff_getElem.1 hk
  have hvalue : values[k]? = some values[k] := List.getElem?_eq_getElem (hlength ▸ hlt)
  refine ⟨(names[k], values[k]), mem_zip_of_getElem? (List.getElem?_eq_getElem hlt) hvalue,
    of_decide_eq_true hequal, ?_⟩
  rw [traitsParse, EnumRuntimeInfo.parse]
  simp only [infoOf, hk, List.getElem?_map, hvalue, Option.map_some, Option.getD_some]
  rfl

/-- A value is written as the name of an enumerator that is the same `int`. -/
theorem traitsToString_of_mem (hlength : names.length = values.length)
    (hp : p ∈ names.zip values) :
    ∃ q ∈ names.zip values, IntType.int.cast q.2 = IntType.int.cast p.2 ∧
      traitsToString (infoOf names values) p.2 = q.1 := by
  have hvalue := (List.of_mem_zip hp).2
  have hsome : ((values.map IntType.int.cast).findIdx?
      (· = IntType.int.cast p.2)).isSome := by
    rw [List.findIdx?_isSome, List.any_eq_true]
    exact ⟨_, List.mem_map_of_mem hvalue, decide_eq_true rfl⟩
  obtain ⟨k, hk⟩ := Option.isSome_iff_exists.1 hsome
  obtain ⟨hlt, hequal, -⟩ := List.findIdx?_eq_some_iff_getElem.1 hk
  rw [List.length_map] at hlt
  have hname : names[k]? = some names[k] := List.getElem?_eq_getElem (hlength.symm ▸ hlt)
  refine ⟨(names[k], values[k]), mem_zip_of_getElem? hname (List.getElem?_eq_getElem hlt), ?_, ?_⟩
  · have hcast := of_decide_eq_true hequal
    rwa [List.getElem_map] at hcast
  · rw [traitsToString, EnumRuntimeInfo.toString]
    simp only [infoOf, hk, hname, Option.getD_some]

/-- Whatever the case of its letters, each name is parsed as its enumerator. -/
theorem parse_iff (t : IntType) (hlength : names.length = values.length) :
    (∀ p ∈ names.zip values, ∀ str, icaseEqual str p.1 →
      traitsParse t (infoOf names values) str = .ok p.2) ↔
    ∀ p ∈ names.zip values, ∀ q ∈ names.zip values, icaseEqual p.1 q.1 →
      t.cast (IntType.int.cast q.2) = p.2 := by
  constructor
  · intro h p hp q hq hequal
    -- all enumerators of the name have one value: the one that is parsed
    obtain ⟨r, hr, hqr, hparse⟩ := traitsParse_of_mem t hlength hq (Network.icaseEqual_refl q.1)
    have hvalue : ∀ {s : List Char × ℤ}, s ∈ names.zip values → icaseEqual q.1 s.1 →
        t.cast (IntType.int.cast r.2) = s.2 := by
      intro s hs hqs
      rw [h s hs q.1 hqs] at hparse
      exact (Except.ok.inj hparse).symm
    have hrq : q.2 = r.2 := by
      rw [← hvalue hq (Network.icaseEqual_refl q.1), hvalue hr hqr]
    rw [hrq]
    exact hvalue hp (Network.icaseEqual_symm hequal)
  · intro h p hp str hstr
    obtain ⟨q, hq, hstr', hparse⟩ := traitsParse_of_mem t hlength hp hstr
    rw [hparse, h p hp q hq ((Network.icaseEqual_symm hstr).trans hstr')]

/-- What is written for a value is parsed as the value. -/
theorem traitsParse_toString (hlength : names.length = values.length)
    (h : ∀ p ∈ names.zip values, ∀ q ∈ names.zip values, icaseEqual p.1 q.1 →
      t.cast (IntType.int.cast q.2) = p.2) (hp : p ∈ names.zip values) :
    traitsParse t (infoOf names values) (traitsToString (infoOf names values) p.2) = .ok p.2 := by
  obtain ⟨q, hq, hcast, hname⟩ := traitsToString_of_mem hlength hp
  have hparse := (parse_iff t hlength).2 h q hq q.1 (Network.icaseEqual_refl q.1)
  have hvalue : q.2 = p.2 := by
    rw [← h q hq q (by assumption) (Network.icaseEqual_refl q.1), hcast]
    exact h p hp p hp (Network.icaseEqual_refl p.1)
  rw [hname, hparse, hvalue]

end Traits

/-- **Reflection.**  From the text of its definition an enumeration gets the names and values it
has in the language, so that each name in any case, and what is written for each value, is parsed
as its enumerator, just when no initializer has a comma and enumerators whose names differ in case
at most have one value, that fits an `int`. -/
theorem reflects_iff {t : IntType} {decl : List Enumerator} (hne : decl ≠ [])
    (hnames : ∀ e ∈ decl, Identifier e.name)
    (hvalues : ∀ v ∈ enumerators 0 decl, t.cast v = v) :
    (∃ enumInfo, getEnumInternalInfo t decl = some enumInfo ∧
      ∀ p ∈ (decl.map (·.name)).zip (enumerators 0 decl),
        (∀ str, icaseEqual str p.1 → traitsParse t enumInfo str = .ok p.2) ∧
        traitsParse t enumInfo (traitsToString enumInfo p.2) = .ok p.2) ↔
    (∀ e ∈ decl, ',' ∉ e.initText) ∧
      ∀ p ∈ (decl.map (·.name)).zip (enumerators 0 decl),
      ∀ q ∈ (decl.map (·.name)).zip (enumerators 0 decl), icaseEqual p.1 q.1 →
        t.cast (IntType.int.cast q.2) = p.2 := by
  have hlength : (decl.map (·.name)).length = (enumerators 0 decl).length := by
    rw [List.length_map, length_enumerators]
  have hcounters : counters t 0 decl = enumerators 0 decl := by
    refine counters_eq ?_ hvalues
    rw [IntType.cast, Int.zero_bmod, Int.zero_emod, ite_self]
  rw [getEnumInternalInfo, parseEnumDefinition_eq hne hnames, hcounters]
  by_cases hcomma : ∀ e ∈ decl, ',' ∉ e.initText
  · rw [if_pos hcomma, Option.map_some]
    constructor
    · rintro ⟨enumInfo, hinfo, h⟩
      obtain rfl := Option.some.inj hinfo
      exact ⟨hcomma, (parse_iff t hlength).1 fun p hp => (h p hp).1⟩
    · rintro ⟨-, h⟩
      refine ⟨_, rfl, fun p hp => ⟨(parse_iff t hlength).2 h p hp, ?_⟩⟩
      exact traitsParse_toString hlength h hp
  · rw [if_neg hcomma, Option.map_none]
    constructor
    · rintro ⟨enumInfo, hinfo, -⟩
      cases hinfo
    · rintro ⟨hall, -⟩
      exact absurd hall hcomma

/-- `Value1, Value3 = 3, Value4`. -/
def testEnum : List Enumerator :=
  [{ name := "Value1".toList, gap := 0 },
    { indent := 1, name := "Value3".toList, gap := 1, initializer := some (" 3".toList, 3) },
    { indent := 1, name := "Value4".toList }]

theorem reflects_testEnum : ∃ enumInfo, getEnumInternalInfo IntType.int testEnum = some enumInfo ∧
    ∀ p ∈ (testEnum.map (·.name)).zip (enumerators 0 testEnum),
      (∀ str, icaseEqual str p.1 → traitsParse IntType.int enumInfo str = .ok p.2) ∧
      traitsParse IntType.int enumInfo (traitsToString enumInfo p.2) = .ok p.2 :=
  (reflects_iff (by decide) (by simp [testEnum, Identifier]) (by decide)).2 ⟨by decide, by decide⟩

end MyEngine.Enums
