import Mathlib.Data.List.DropRight
import MyEngine.Network.HeaderIteration
import MyEngine.Network.HeaderLines

/-!
# Network — MessageHead

The head of a message: a start line, the lines of the headers and the empty line.

* `map_texts_headersFrom`: from the line of a header on, the walk goes through the lines.
* `iterates_iff`: the walk has the listed headers where the start line is no header line, and
  is not empty before headers.
-/

namespace MyEngine.Network

open Support

/-- What `strings::trim` leaves of a text. -/
def trimmed (text : List Char) : List Char := (text.rdropWhile (· = ' ')).dropWhile (· = ' ')

def Header.texts (h : Header) : List Char × List Char := (h.key.text, h.value.text)

/-- A header as it is sent: anything between the name and the `:`, and behind it. -/
structure HeaderLine where
  key : List Char
  value : List Char
  key_ne : trimmed key ≠ []
  key_colon : ':' ∉ key
  key_eol : ¬ EndOfLine <:+: key
  value_eol : ¬ EndOfLine <:+: value

def HeaderLine.line (l : HeaderLine) : List Char := l.key ++ ':' :: l.value

def HeaderLine.fields (l : HeaderLine) : List Char × List Char := (trimmed l.key, trimmed l.value)

structure MessageHead where
  start : List Char
  lines : List HeaderLine
  start_eol : ¬ EndOfLine <:+: start

namespace MessageHead

def text (head : MessageHead) : List Char :=
  writeHeaders (head.start :: head.lines.map HeaderLine.line)

def fields (head : MessageHead) : List (List Char × List Char) :=
  head.lines.map HeaderLine.fields

/-- What the functions of the parser are to say about the head. -/
structure Iterates (head : MessageHead) : Prop where
  yields : ∀ i (h : i < head.fields.length),
    ((getNextHeader head.text)^[i] (getFirstHeader head.text)).texts = head.fields[i]
  ends : ¬ ((getNextHeader head.text)^[head.fields.length] (getFirstHeader head.text)).Valid
  iterator : ∀ i (h : i < head.fields.length), ∃ it,
    (HttpParser.mk head.text).beginIterator.advance i = some it ∧ it.value.texts = head.fields[i]
  count : headersCount head.text = head.fields.length
  at_index : ∀ i (h : i < head.fields.length), (headerAt head.text i).texts = head.fields[i]
  find_key : ∀ key, (findHeader head.text key).texts =
    (head.fields.find? fun f => icaseEqual f.1 key).getD ([], [])

end MessageHead

/-! ### One header line -/

theorem trim_text (str : View) : (trim str).text = trimmed str.text := by
  rw [trim, trimStart_text]
  rfl

/-- The trimmed text stands behind the spaces that were cut off. -/
theorem exists_trim_offset (offset : Nat) {text : List Char} (h : trimmed text ≠ []) :
    ∃ u v, text = u ++ v ∧ (trim ⟨offset, text⟩).offset = offset + u.length := by
  obtain ⟨t, ht⟩ := List.rdropWhile_prefix (· = ' ') text
  have hsplit := List.takeWhile_append_dropWhile (p := (· = ' ')) (l := text.rdropWhile (· = ' '))
  refine ⟨(text.rdropWhile (· = ' ')).takeWhile (· = ' '), trimmed text ++ t, ?_, ?_⟩
  · rw [← List.append_assoc, trimmed, hsplit, ht]
  · have hlen := congrArg List.length hsplit
    rw [List.length_append] at hlen
    have hoff : (trim ⟨offset, text⟩).offset =
        offset + ((text.rdropWhile (· = ' ')).length - (trimmed text).length) := by
      rw [trim, trimStart]
      exact congrArg View.offset (if_neg h)
    rw [hoff, ← hlen, trimmed, Nat.add_sub_cancel]

/-- A text with a name before its first `:`. -/
def HeaderLike (text : List Char) : Prop :=
  ∃ key value, text = key ++ ':' :: value ∧ ':' ∉ key ∧ trimmed key ≠ []

theorem tryParseHeader_valid_iff (offset : Nat) (text : List Char) :
    (tryParseHeader ⟨offset, text⟩).Valid ↔ HeaderLike text := by
  constructor
  · intro h
    by_cases hmem : ':' ∈ text
    · obtain ⟨key, value, rfl, hkey⟩ := List.eq_append_cons_of_mem hmem
      rw [tryParseHeader_colon hkey, Header.Valid, trim_text] at h
      exact ⟨key, value, rfl, hkey, h⟩
    · have hfind : find [':'] (text ++ []) = none := find_append rfl hmem []
      rw [List.append_nil] at hfind
      rw [tryParseHeader, hfind] at h
      exact absurd rfl h
  · rintro ⟨key, value, rfl, hkey, hne⟩
    rwa [tryParseHeader_colon hkey, Header.Valid, trim_text]

section HeaderLine
variable (l : HeaderLine) {offset : Nat}

theorem headerLike_line : HeaderLike l.line := ⟨l.key, l.value, rfl, l.key_colon, l.key_ne⟩

theorem tryParseHeader_valid : (tryParseHeader ⟨offset, l.line⟩).Valid :=
  (tryParseHeader_valid_iff offset l.line).2 (headerLike_line l)

theorem tryParseHeader_key : (tryParseHeader ⟨offset, l.line⟩).key = trim ⟨offset, l.key⟩ := by
  rw [HeaderLine.line, tryParseHeader_colon l.key_colon]

theorem tryParseHeader_texts : (tryParseHeader ⟨offset, l.line⟩).texts = l.fields := by
  rw [HeaderLine.line, tryParseHeader_colon l.key_colon, Header.texts, trim_text, trim_text]
  rfl

theorem eol_line : ¬ EndOfLine <:+: l.line := by
  refine not_infix_append l.key_eol (fun hin => ?_) (by simp)
  rcases List.infix_cons_iff.1 hin with ⟨t, ht⟩ | hin
  · simp [EndOfLine] at ht
  · exact l.value_eol hin

/-- The key leads back to its line, behind which the next one is found. -/
theorem getNextHeader_line {p next s : List Char} (hnext : ¬ EndOfLine <:+: next) :
    getNextHeader (p ++ (l.line ++ (EndOfLine ++ (next ++ (EndOfLine ++ s)))))
        (tryParseHeader ⟨p.length, l.line⟩) =
      tryParseHeader ⟨(p ++ (l.line ++ EndOfLine)).length, next⟩ := by
  obtain ⟨u, v, hkey, hoff⟩ := exists_trim_offset p.length l.key_ne
  have hline : l.line = u ++ (v ++ ':' :: l.value) := by
    rw [HeaderLine.line, hkey, List.append_assoc]
  have hrest : ¬ EndOfLine <:+: v ++ ':' :: l.value := fun hin =>
    eol_line l (hline ▸ hin.trans (List.suffix_append u _).isInfix)
  have htext : (trim ⟨p.length, l.key⟩).text ≠ [] := by
    rw [trim_text]
    exact l.key_ne
  have hview : trim ⟨p.length, l.key⟩ = ⟨(p ++ u).length, (trim ⟨p.length, l.key⟩).text⟩ := by
    rw [List.length_append, ← hoff]
  rw [getNextHeader, if_pos (tryParseHeader_valid l), tryParseHeader_key, hview, hline,
    List.append_assoc, ← List.append_assoc p u, getNextLine_append hrest hnext htext]
  simp only [List.append_assoc]

end HeaderLine

/-! ### The walk over the lines -/

theorem exists_writeHeaders (lines : List (List Char)) :
    ∃ s, writeHeaders lines = lines.headD [] ++ (EndOfLine ++ s) := by
  cases lines with
  | nil => exact ⟨[], rfl⟩
  | cons line lines => exact ⟨_, writeHeaders_cons line lines⟩

theorem eol_headD_line (lines : List HeaderLine) :
    ¬ EndOfLine <:+: (lines.map HeaderLine.line).headD [] := by
  cases lines with
  | nil => exact by decide
  | cons l lines => exact eol_line l

/-- From the place where the lines begin, the walk goes through all of them. -/
theorem map_texts_headersFrom (p : List Char) (lines : List HeaderLine) {fuel : Nat}
    (hf : lines.length < fuel) :
    (headersFrom (p ++ writeHeaders (lines.map HeaderLine.line)) fuel
        (tryParseHeader ⟨p.length, (lines.map HeaderLine.line).headD []⟩)).map Header.texts =
      lines.map HeaderLine.fields := by
  induction lines generalizing p fuel with
  | nil =>
      have hnone : ¬ (tryParseHeader ⟨p.length, []⟩).Valid := fun h => h rfl
      rw [List.map_nil, List.headD_nil, headersFrom_of_not_valid hnone]
      rfl
  | cons l lines ih =>
      obtain ⟨fuel, rfl⟩ := Nat.exists_eq_succ_of_ne_zero (Nat.ne_of_gt (Nat.zero_lt_of_lt hf))
      obtain ⟨s, hs⟩ := exists_writeHeaders (lines.map HeaderLine.line)
      -- the line goes to what is behind the walk
      have hbuffer : p ++ writeHeaders ((l :: lines).map HeaderLine.line) =
          (p ++ (l.line ++ EndOfLine)) ++ writeHeaders (lines.map HeaderLine.line) := by
        rw [List.map_cons, writeHeaders_cons]
        simp only [List.append_assoc]
      have hnext : getNextHeader (p ++ writeHeaders ((l :: lines).map HeaderLine.line))
          (tryParseHeader ⟨p.length, l.line⟩) =
          tryParseHeader ⟨(p ++ (l.line ++ EndOfLine)).length,
            (lines.map HeaderLine.line).headD []⟩ := by
        rw [List.map_cons, writeHeaders_cons, hs, getNextHeader_line l (eol_headD_line lines)]
      rw [List.map_cons, List.headD_cons, headersFrom_of_valid (tryParseHeader_valid l),
        ← List.map_cons, hnext, List.map_cons, tryParseHeader_texts, hbuffer,
        ih _ (Nat.lt_of_succ_lt_succ hf), List.map_cons]

namespace MessageHead
variable (head : MessageHead)

theorem length_lines_lt : head.lines.length < head.text.length + 1 := by
  have hle := length_le_writeLines (head.start :: head.lines.map HeaderLine.line)
  rw [text, writeHeaders, List.length_append]
  rw [List.length_cons, List.length_map] at hle
  omega

theorem text_eq : head.text =
    (head.start ++ EndOfLine) ++ writeHeaders (head.lines.map HeaderLine.line) := by
  rw [text, writeHeaders_cons, List.append_assoc]

/-- Whatever the body holds, the parser keeps the head. -/
theorem ofBuffer_text (body : List Char) :
    HttpParser.ofBuffer (head.text ++ body) = ⟨head.text⟩ := by
  have hlines : ∀ x ∈ head.lines.map HeaderLine.line, ¬ EndOfLine <:+: x ∧ x ≠ [] := by
    intro x hx
    obtain ⟨l, -, rfl⟩ := List.mem_map.1 hx
    exact ⟨eol_line l, by simp [HeaderLine.line]⟩
  rw [HttpParser.ofBuffer, text,
    getHeadersBuffer_of_prefix head.start_eol hlines (List.prefix_refl _), List.length_append,
    if_pos (Nat.le_add_right _ _)]

/-- A start line that is no header is passed over, unless it is empty. -/
theorem map_texts_headers (hlike : ¬ HeaderLike head.start)
    (hstart : head.start ≠ [] ∨ head.lines = []) :
    (headers head.text).map Header.texts = head.fields := by
  have hvalid : ¬ (tryParseHeader ⟨0, head.start⟩).Valid := fun h =>
    hlike ((tryParseHeader_valid_iff 0 head.start).1 h)
  obtain ⟨s, hs⟩ := exists_writeHeaders (head.lines.map HeaderLine.line)
  have hfirst : getFirstHeader head.text =
      tryParseHeader (getNextLine head.text ⟨0, head.start⟩) := by
    rw [text, writeHeaders_cons, getFirstHeader_cons head.start_eol, if_neg hvalid]
  by_cases hne : head.start = []
  · have hnone : getNextLine head.text ⟨0, head.start⟩ = {} := if_pos (.inr hne)
    have hlines := hstart.resolve_left (not_not.2 hne)
    have hfirst' : ¬ (getFirstHeader head.text).Valid := by
      rw [hfirst, hnone]
      exact fun h => h rfl
    rw [headers, headersFrom_of_not_valid hfirst', fields, hlines]
    rfl
  · have hnext : getNextLine head.text ⟨0, head.start⟩ =
        ⟨(head.start ++ EndOfLine).length, (head.lines.map HeaderLine.line).headD []⟩ := by
      rw [text, writeHeaders_cons, hs]
      exact getNextLine_append (p := []) head.start_eol (eol_headD_line head.lines) hne
    have hwalk := map_texts_headersFrom (head.start ++ EndOfLine) head.lines head.length_lines_lt
    rw [← text_eq] at hwalk
    rw [headers, hfirst, hnext, hwalk, fields]

/-- A start line like a header is the first one. -/
theorem headersCount_of_headerLike (h : HeaderLike head.start) :
    headersCount head.text = head.fields.length + 1 := by
  obtain ⟨key, value, hstart, hkey, hne⟩ := h
  have hkeyIn : key <:+: head.start := ⟨[], ':' :: value, hstart.symm⟩
  have hvalueIn : value <:+: head.start := ⟨key ++ [':'], [], by simp [hstart]⟩
  let first : HeaderLine := ⟨key, value, hne, hkey, fun hin => head.start_eol (hin.trans hkeyIn),
    fun hin => head.start_eol (hin.trans hvalueIn)⟩
  have htext : head.text = writeHeaders ((first :: head.lines).map HeaderLine.line) := by
    rw [text, hstart]
    rfl
  have hfirst : getFirstHeader head.text = tryParseHeader ⟨0, head.start⟩ := by
    rw [text, writeHeaders_cons, getFirstHeader_cons head.start_eol,
      if_pos ((tryParseHeader_valid_iff 0 _).2 ⟨key, value, hstart, hkey, hne⟩)]
  have hlt : (first :: head.lines).length < head.text.length + 1 := by
    have hle := length_le_writeLines ((first :: head.lines).map HeaderLine.line)
    rw [List.length_map] at hle
    rw [htext, writeHeaders, List.length_append]
    exact Nat.lt_succ_of_le (hle.trans (Nat.le_add_right _ _))
  have hwalk := map_texts_headersFrom [] (first :: head.lines) hlt
  rw [List.nil_append, ← htext, List.map_cons, List.headD_cons] at hwalk
  have hlen := congrArg List.length hwalk
  rw [List.length_map, List.length_map, List.length_cons] at hlen
  rw [headersCount_eq, headers, hfirst, fields, List.length_map, ← hlen, hstart]
  rfl

theorem headersCount_of_empty (h : head.start = []) : headersCount head.text = 0 := by
  have hfirst : ¬ (getFirstHeader head.text).Valid := by
    have hnone : ∀ line : View, line.text = [] → ¬ (tryParseHeader line).Valid := by
      rintro ⟨offset, text⟩ (rfl : text = []) hvalid
      exact hvalid rfl
    have hnext : (getNextLine head.text ⟨0, head.start⟩).text = [] := by
      rw [getNextLine, if_pos (.inr h)]
    rw [text, writeHeaders_cons, getFirstHeader_cons head.start_eol, if_neg (hnone _ h),
      ← writeHeaders_cons]
    exact hnone _ hnext
  rw [headersCount_eq, headers, headersFrom_of_not_valid hfirst]
  rfl

theorem iterates_of_map (h : (headers head.text).map Header.texts = head.fields) :
    head.Iterates := by
  have hlen : head.fields.length = (headers head.text).length := by rw [← h, List.length_map]
  have hat : ∀ i (hi : i < head.fields.length),
      ((headers head.text)[i]?.getD {}).texts = head.fields[i] := by
    intro i hi
    rw [List.getElem?_eq_getElem (hlen ▸ hi), Option.getD_some]
    simp only [← h, List.getElem_map]
  have hiter : ∀ i (hi : i < head.fields.length),
      ((getNextHeader head.text)^[i] (getFirstHeader head.text)).texts = head.fields[i] := by
    intro i hi
    have hi' : i < (headers head.text).length := hlen ▸ hi
    rw [← hat i hi, (iterate_headers hi').1, List.getElem?_eq_getElem hi', Option.getD_some]
  refine ⟨hiter, hlen ▸ iterate_headers_length head.text, fun i hi => ?_,
    (headersCount_eq _).trans hlen.symm, fun i hi => ?_, fun key => ?_⟩
  · have hle : i ≤ headersCount (HttpParser.mk head.text).buffer := by
      rw [headersCount_eq, ← hlen]
      exact Nat.le_of_lt hi
    obtain ⟨parser, hit⟩ := advance_beginIterator hle
    exact ⟨_, hit, hiter i hi⟩
  · rw [headerAt_eq, hat i hi]
  · rw [findHeader_eq, ← h, List.find?_map]
    change _ = (((headers head.text).find? fun h => icaseEqual h.key.text key).map
      Header.texts).getD ([], [])
    cases (headers head.text).find? fun h => icaseEqual h.key.text key with
    | none => rfl
    | some found => rfl

/-- A start line that looks like a header is listed with the headers, and one that is empty
hides them. -/
theorem iterates_iff :
    head.Iterates ↔ ¬ HeaderLike head.start ∧ (head.start ≠ [] ∨ head.lines = []) := by
  constructor
  · intro h
    refine ⟨fun hlike => ?_, or_iff_not_imp_left.2 fun hempty => ?_⟩
    · have hcount := head.headersCount_of_headerLike hlike
      rw [h.count] at hcount
      exact Nat.ne_of_lt (Nat.lt_succ_self _) hcount
    · have hcount := head.headersCount_of_empty (not_not.1 hempty)
      rw [h.count, fields, List.length_map] at hcount
      exact List.eq_nil_of_length_eq_zero hcount
  · rintro ⟨hlike, hstart⟩
    exact head.iterates_of_map (head.map_texts_headers hlike hstart)

/-- `GET http://h` and no headers: the walk finds `GET http`. -/
theorem not_iterates_absolute : ¬ Iterates
    ⟨['G', 'E', 'T', ' ', 'h', 't', 't', 'p', ':', '/', '/', 'h'], [], by decide⟩ :=
  fun h => absurd h.count (by decide)

end MessageHead

end MyEngine.Network
