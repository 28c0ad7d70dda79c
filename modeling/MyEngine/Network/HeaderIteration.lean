import Mathlib.Logic.Function.Iterate
import MyEngine.Network.HttpParser

/-!
# Network — HeaderIteration

The loops `for (header = getFirstHeader(buffer); header; header = getNextHeader(buffer, header))`
of `http_parser.cpp`, and `HeaderIterator`, which is one such walk kept in an object.

* `headers`: what the loops go through; each of them is read off that list.
* `operatorEq_iff`: when iterators are told apart by their places.
-/

namespace MyEngine.Network

/-! ### The loops -/

def headersCountLoop (buffer : List Char) : Nat → Nat → Header → Nat
  | 0, counter, _             => counter
  | fuel + 1, counter, header =>
      if header.Valid then
        headersCountLoop buffer fuel (counter + 1) (getNextHeader buffer header)
      else counter

def headersCount (buffer : List Char) : Nat :=
  headersCountLoop buffer (buffer.length + 1) 0 (getFirstHeader buffer)

/-- The loop of `headerAt`.  Where it finds nothing, debug builds fail. -/
def headerAtLoop (buffer : List Char) (index : Nat) : Nat → Nat → Header → Header
  | 0, _, _                   => {}
  | fuel + 1, counter, header =>
      if header.Valid then
        if counter = index then ⟨header.key, header.value⟩
        else headerAtLoop buffer index fuel (counter + 1) (getNextHeader buffer header)
      else {}

def headerAt (buffer : List Char) (index : Nat) : Header :=
  headerAtLoop buffer index (buffer.length + 1) 0 (getFirstHeader buffer)

/-- The headers a loop goes through from `header` on. -/
def headersFrom (buffer : List Char) : Nat → Header → List Header
  | 0, _             => []
  | fuel + 1, header =>
      if header.Valid then header :: headersFrom buffer fuel (getNextHeader buffer header) else []

def headers (buffer : List Char) : List Header :=
  headersFrom buffer (buffer.length + 1) (getFirstHeader buffer)

section Loops
variable {buffer : List Char} {fuel : Nat} {header : Header}

theorem headersFrom_of_valid (h : header.Valid) :
    headersFrom buffer (fuel + 1) header =
      header :: headersFrom buffer fuel (getNextHeader buffer header) := if_pos h

theorem headersFrom_of_not_valid (h : ¬ header.Valid) : headersFrom buffer fuel header = [] := by
  cases fuel with
  | zero => rfl
  | succ fuel => exact if_neg h

theorem headersCountLoop_eq (counter : Nat) :
    headersCountLoop buffer fuel counter header =
      counter + (headersFrom buffer fuel header).length := by
  induction fuel generalizing counter header with
  | zero => rfl
  | succ fuel ih =>
      rw [headersCountLoop, headersFrom]
      split
      · rw [ih, List.length_cons]
        omega
      · rfl

theorem headerAtLoop_eq {index counter : Nat} (h : counter ≤ index) :
    headerAtLoop buffer index fuel counter header =
      ((headersFrom buffer fuel header)[index - counter]?).getD {} := by
  induction fuel generalizing counter header with
  | zero => rfl
  | succ fuel ih =>
      rw [headerAtLoop, headersFrom]
      split
      · split
        case isTrue hat => rw [hat, Nat.sub_self]; rfl
        case isFalse hat =>
          have hsub : index - counter = index - (counter + 1) + 1 := by omega
          rw [ih (by omega), hsub, List.getElem?_cons_succ]
      · rfl

theorem findHeaderLoop_eq (key : List Char) :
    findHeaderLoop buffer key fuel header =
      ((headersFrom buffer fuel header).find? fun h => icaseEqual h.key.text key).getD {} := by
  induction fuel generalizing header with
  | zero => rfl
  | succ fuel ih =>
      rw [findHeaderLoop_succ, headersFrom]
      split
      · rw [List.find?_cons, ih]
        by_cases hkey : icaseEqual header.key.text key
        · simp [hkey]
        · simp [hkey]
      · rfl

theorem headersCount_eq (buffer : List Char) : headersCount buffer = (headers buffer).length :=
  (headersCountLoop_eq 0).trans (Nat.zero_add _)

theorem headerAt_eq (buffer : List Char) (index : Nat) :
    headerAt buffer index = ((headers buffer)[index]?).getD {} :=
  headerAtLoop_eq (Nat.zero_le index)

theorem findHeader_eq (buffer key : List Char) :
    findHeader buffer key =
      ((headers buffer).find? fun h => icaseEqual h.key.text key).getD {} :=
  findHeaderLoop_eq key

/-- The places of the list are what `getNextHeader` answers, step by step. -/
theorem iterate_headersFrom {i : Nat} (h : i < (headersFrom buffer fuel header).length) :
    (getNextHeader buffer)^[i] header = (headersFrom buffer fuel header)[i] ∧
      ((getNextHeader buffer)^[i] header).Valid := by
  induction fuel generalizing i header with
  | zero => exact absurd h (Nat.not_lt_zero i)
  | succ fuel ih =>
      by_cases hv : header.Valid
      · simp only [headersFrom_of_valid hv] at h ⊢
        cases i with
        | zero => exact ⟨rfl, hv⟩
        | succ i => exact ih (Nat.lt_of_succ_lt_succ h)
      · simp only [headersFrom_of_not_valid hv] at h
        exact absurd h (Nat.not_lt_zero i)

/-- Each header stands behind the one before: the loop is over before its fuel is. -/
theorem iterate_headersFrom_length (hf : buffer.length - header.key.offset < fuel) :
    ¬ ((getNextHeader buffer)^[(headersFrom buffer fuel header).length] header).Valid := by
  induction fuel generalizing header with
  | zero => exact absurd hf (Nat.not_lt_zero _)
  | succ fuel ih =>
      by_cases hv : header.Valid
      · rw [headersFrom_of_valid hv, List.length_cons, Function.iterate_succ_apply]
        by_cases hnext : (getNextHeader buffer header).Valid
        · -- less of the buffer is left behind the next header
          have ⟨hlt, hbuf⟩ := getNextHeader_offset_lt hnext
          exact ih (by omega)
        · rwa [headersFrom_of_not_valid hnext]
      · rwa [headersFrom_of_not_valid hv]

end Loops

theorem iterate_headers {buffer : List Char} {i : Nat} (h : i < (headers buffer).length) :
    (getNextHeader buffer)^[i] (getFirstHeader buffer) = (headers buffer)[i] ∧
      ((getNextHeader buffer)^[i] (getFirstHeader buffer)).Valid :=
  iterate_headersFrom h

theorem iterate_headers_length (buffer : List Char) :
    ¬ ((getNextHeader buffer)^[(headers buffer).length] (getFirstHeader buffer)).Valid :=
  iterate_headersFrom_length (Nat.lt_succ_of_le (Nat.sub_le _ _))

/-! ### `HeaderIterator` -/

/-- `Header::operator==`: it is made for the search by name. -/
def Header.operatorEq (h other : Header) : Prop := icaseEqual h.key.text other.key.text

structure HeaderIterator where
  parser : Option HttpParser := none
  value : Header := {}
  deriving DecidableEq, Repr

namespace HeaderIterator

def operatorEq (it other : HeaderIterator) : Prop := it.value.operatorEq other.value

/-- `operator++`; nothing where one of its assertions fails. -/
def operatorIncrement (it : HeaderIterator) : Option HeaderIterator :=
  match it.parser with
  | some parser =>
      let value := getNextHeader parser.buffer it.value
      if it.value.Valid then some ⟨if value.Valid then some parser else none, value⟩ else none
  | none => none

/-- `n` times `operator++`. -/
def advance : Nat → HeaderIterator → Option HeaderIterator
  | 0, it     => some it
  | n + 1, it => it.operatorIncrement.bind (advance n)

end HeaderIterator

namespace HttpParser

def beginIterator (http : HttpParser) : HeaderIterator := ⟨some http, getFirstHeader http.buffer⟩

def endIterator : HeaderIterator := {}

end HttpParser

section Iterator
variable {http : HttpParser} {header : Header} {fuel i j : Nat}

theorem advance_headersFrom (h : i ≤ (headersFrom http.buffer fuel header).length) :
    ∃ parser, HeaderIterator.advance i ⟨some http, header⟩ =
      some ⟨parser, (getNextHeader http.buffer)^[i] header⟩ := by
  induction fuel generalizing i header with
  | zero =>
      obtain rfl : i = 0 := Nat.eq_zero_of_le_zero h
      exact ⟨some http, rfl⟩
  | succ fuel ih =>
      cases i with
      | zero => exact ⟨some http, rfl⟩
      | succ i =>
          by_cases hv : header.Valid
          · rw [headersFrom_of_valid hv, List.length_cons] at h
            have hi := Nat.le_of_succ_le_succ h
            have hstep : HeaderIterator.operatorIncrement ⟨some http, header⟩ =
                some ⟨if (getNextHeader http.buffer header).Valid then some http else none,
                  getNextHeader http.buffer header⟩ := if_pos hv
            rw [HeaderIterator.advance, hstep, Option.bind_some, Function.iterate_succ_apply]
            by_cases hnext : (getNextHeader http.buffer header).Valid
            · rw [if_pos hnext]
              exact ih hi
            · rw [headersFrom_of_not_valid hnext] at hi
              obtain rfl : i = 0 := Nat.eq_zero_of_le_zero hi
              exact ⟨_, rfl⟩
          · rw [headersFrom_of_not_valid hv] at h
            exact absurd h (Nat.not_succ_le_zero i)

/-- As many steps as there are headers can be made; each answers the header of its place. -/
theorem advance_beginIterator (h : i ≤ headersCount http.buffer) :
    ∃ parser, http.beginIterator.advance i =
      some ⟨parser, (getNextHeader http.buffer)^[i] (getFirstHeader http.buffer)⟩ := by
  rw [headersCount_eq] at h
  exact advance_headersFrom h

/-- The key of a place: that of its header, and none behind the last. -/
theorem key_iterate (h : i ≤ (headers http.buffer).length) :
    ((getNextHeader http.buffer)^[i] (getFirstHeader http.buffer)).key.text =
      ((headers http.buffer)[i]?.getD {}).key.text := by
  rcases Nat.lt_or_eq_of_le h with hlt | rfl
  · rw [(iterate_headers hlt).1, List.getElem?_eq_getElem hlt]
    rfl
  · have hend := iterate_headers_length http.buffer
    rw [List.getElem?_eq_none (Nat.le_refl _)]
    exact not_not.1 hend

theorem exists_advance_operatorEq (hi : i ≤ headersCount http.buffer)
    (hj : j ≤ headersCount http.buffer) :
    ∃ a b, http.beginIterator.advance i = some a ∧ http.beginIterator.advance j = some b ∧
      (a.operatorEq b ↔ ((headers http.buffer)[i]?.getD {}).operatorEq
        ((headers http.buffer)[j]?.getD {})) := by
  obtain ⟨parserᵢ, ha⟩ := advance_beginIterator hi
  obtain ⟨parserⱼ, hb⟩ := advance_beginIterator hj
  rw [headersCount_eq] at hi hj
  refine ⟨_, _, ha, hb, ?_⟩
  rw [HeaderIterator.operatorEq, Header.operatorEq, key_iterate hi, key_iterate hj]
  rfl

theorem not_operatorEq_of_lt
    (h : (headers http.buffer).Pairwise fun h other => ¬ h.operatorEq other) (hij : i < j)
    (hj : j ≤ (headers http.buffer).length) :
    ¬ ((headers http.buffer)[i]?.getD {}).operatorEq ((headers http.buffer)[j]?.getD {}) := by
  have hi := Nat.lt_of_lt_of_le hij hj
  rw [List.getElem?_eq_getElem hi, Option.getD_some]
  rcases Nat.lt_or_eq_of_le hj with hlt | rfl
  · rw [List.getElem?_eq_getElem hlt, Option.getD_some]
    exact List.pairwise_iff_getElem.1 h i j hi hlt hij
  · -- the end has no key, a header has one
    have ⟨hat, hvalid⟩ := iterate_headers hi
    rw [List.getElem?_eq_none (Nat.le_refl _), ← hat]
    exact fun heq => hvalid (icaseEqual_nil_iff.1 heq)

end Iterator

/-- Iterators of a walk are equal where their places are, and behind the last header is the
end. -/
def EqualAtPlaces (http : HttpParser) : Prop :=
  (∀ i j, i ≤ headersCount http.buffer → j ≤ headersCount http.buffer →
    ∃ a b, http.beginIterator.advance i = some a ∧ http.beginIterator.advance j = some b ∧
      (a.operatorEq b ↔ i = j)) ∧
  ∃ e, http.beginIterator.advance (headersCount http.buffer) = some e ∧
    e.operatorEq HttpParser.endIterator

/-- Iterators are told apart by the names of their headers: two of one name are equal. -/
theorem equalAtPlaces_iff (http : HttpParser) :
    EqualAtPlaces http ↔
      (headers http.buffer).Pairwise fun h other => ¬ h.operatorEq other := by
  constructor
  · rintro ⟨hplaces, -⟩
    refine List.pairwise_iff_getElem.2 fun i j hi hj hij heq => ?_
    have hi' : i ≤ headersCount http.buffer := (headersCount_eq _).symm ▸ Nat.le_of_lt hi
    have hj' : j ≤ headersCount http.buffer := (headersCount_eq _).symm ▸ Nat.le_of_lt hj
    obtain ⟨a, b, ha, hb, hab⟩ := hplaces i j hi' hj'
    obtain ⟨a', b', ha', hb', hab'⟩ := exists_advance_operatorEq hi' hj'
    obtain rfl := Option.some.inj (ha.symm.trans ha')
    obtain rfl := Option.some.inj (hb.symm.trans hb')
    rw [List.getElem?_eq_getElem hi, List.getElem?_eq_getElem hj] at hab'
    exact Nat.ne_of_lt hij (hab.1 (hab'.2 heq))
  · intro h
    refine ⟨fun i j hi hj => ?_, ?_⟩
    · obtain ⟨a, b, ha, hb, hab⟩ := exists_advance_operatorEq hi hj
      rw [headersCount_eq] at hi hj
      refine ⟨a, b, ha, hb, hab.trans ⟨fun heq => ?_, fun hij => hij ▸ icaseEqual_refl _⟩⟩
      rcases Nat.lt_trichotomy i j with hlt | rfl | hgt
      · exact absurd heq (not_operatorEq_of_lt h hlt hj)
      · rfl
      · exact absurd (icaseEqual_symm heq) (not_operatorEq_of_lt h hgt hi)
    · obtain ⟨parser, he⟩ := advance_beginIterator (Nat.le_refl (headersCount http.buffer))
      have hend := iterate_headers_length http.buffer
      rw [← headersCount_eq] at hend
      exact ⟨_, he, icaseEqual_nil_iff.2 (not_not.1 hend)⟩

/-- `x`, and the headers `A:` and `a:`. -/
theorem not_equalAtPlaces :
    ¬ EqualAtPlaces (HttpParser.ofBuffer
      ['x', '\r', '\n', 'A', ':', '\r', '\n', 'a', ':', '\r', '\n', '\r', '\n']) := by
  rintro ⟨hplaces, -⟩
  obtain ⟨a, b, ha, hb, hab⟩ := hplaces 0 1 (by decide) (by decide)
  have ha' : a.value.key = ⟨3, ['A']⟩ := by
    obtain rfl := Option.some.inj ha
    decide
  have hb' : b.value.key = ⟨7, ['a']⟩ := by
    obtain rfl := Option.some.inj hb
    decide
  exact absurd (hab.1 (by rw [HeaderIterator.operatorEq, Header.operatorEq, ha', hb']; decide))
    (by decide)

end MyEngine.Network
