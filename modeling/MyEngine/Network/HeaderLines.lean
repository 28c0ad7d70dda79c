import MyEngine.Network.HttpParser

/-!
# Network — HeaderLines

Headers as a sender writes them: lines that end in `EndOfLine`, and an empty line behind the
last.

* `getHeadersBuffer_of_prefix`: the parser of a prefix of the message has the whole headers or
  nothing.
* `findHeader_lines`: `findHeader` answers the first line whose key is the one asked for.
-/

namespace MyEngine.Network

open Support

/-- A line of the headers: it is not the empty line and does not hold the end of a line. -/
structure IsLine (line : List Char) : Prop where
  ne_nil : line ≠ []
  cr : '\r' ∉ line

def writeLines (lines : List (List Char)) : List Char := lines.flatMap (· ++ EndOfLine)

def writeHeaders (lines : List (List Char)) : List Char := writeLines lines ++ EndOfLine

theorem writeLines_cons (line : List Char) (lines : List (List Char)) :
    writeLines (line :: lines) = line ++ (EndOfLine ++ writeLines lines) := by
  simp [writeLines]

theorem writeHeaders_cons (line : List Char) (lines : List (List Char)) :
    writeHeaders (line :: lines) = line ++ (EndOfLine ++ writeHeaders lines) := by
  simp [writeHeaders, writeLines_cons]

theorem length_le_writeLines (lines : List (List Char)) :
    lines.length ≤ (writeLines lines).length := by
  induction lines with
  | nil => exact Nat.le_refl _
  | cons line lines ih =>
      simp only [writeLines_cons, List.length_cons, List.length_append, EndOfLine]
      omega

/-! ### The end of the headers -/

theorem not_infix_of_cr {line : List Char} (h : '\r' ∉ line) : ¬ EndOfLine <:+: line :=
  fun hin => h (hin.subset List.mem_cons_self)

theorem EndOfLine_prefix : EndOfLine <+: EndOfHeaders := ⟨EndOfLine, rfl⟩

/-- Without the end of a line in `v`, and none begun by its last character, there is none. -/
theorem not_prefix_append {v s : List Char} (hv : ¬ EndOfLine <:+: v) (hne : v ≠ [])
    (hs : s.head? ≠ some '\n') : ¬ EndOfLine <+: v ++ s := by
  rintro ⟨t, ht⟩
  rcases v with _ | ⟨c, _ | ⟨d, v⟩⟩
  · exact hne rfl
  · simp only [EndOfLine, List.cons_append, List.nil_append, List.cons.injEq] at ht
    exact hs (by rw [← ht.2]; rfl)
  · simp only [EndOfLine, List.cons_append, List.nil_append, List.cons.injEq] at ht
    obtain ⟨rfl, rfl, -⟩ := ht
    exact hv ⟨[], v, rfl⟩

theorem not_infix_append {u v : List Char} (hu : ¬ EndOfLine <:+: u) (hv : ¬ EndOfLine <:+: v)
    (hhead : v.head? ≠ some '\n') : ¬ EndOfLine <:+: u ++ v := by
  intro h
  obtain ⟨t, hpre, r, hr⟩ := List.infix_iff_prefix_suffix.1 h
  rcases List.append_eq_append_iff.1 hr with ⟨a, rfl, rfl⟩ | ⟨a, rfl, rfl⟩
  · rcases eq_or_ne a [] with rfl | ha
    · exact hv hpre.isInfix
    · exact not_prefix_append (fun hin => hu (hin.trans (List.suffix_append r a).isInfix)) ha
        hhead hpre
  · exact hv (hpre.isInfix.trans (List.suffix_append a t).isInfix)

/-- Nothing that begins with the end of a line is found inside a line. -/
theorem find_line {pat line s : List Char} (hpat : EndOfLine <+: pat)
    (h : ¬ EndOfLine <:+: line) (hs : s.head? ≠ some '\n') :
    find pat (line ++ s) = (find pat s).map (· + line.length) :=
  find_append_of_not_prefix fun u v huv hv hpre =>
    not_prefix_append (fun hin => h (huv ▸ hin.trans (List.suffix_append u v).isInfix)) hv hs
      (hpat.trans hpre)

theorem find_EndOfLine {line : List Char} (h : ¬ EndOfLine <:+: line) (s : List Char) :
    find EndOfLine (line ++ (EndOfLine ++ s)) = some line.length := by
  rw [find_line (List.prefix_refl _) h (by simp [EndOfLine]), find_self_append (by decide)]
  simp

/-- A line break that is not followed by another ends no headers. -/
theorem find_EndOfHeaders_cons {s : List Char} (h : ¬ EndOfLine <+: s) :
    find EndOfHeaders (EndOfLine ++ s) = (find EndOfHeaders s).map (· + 2) := by
  have h1 : ¬ EndOfHeaders <+: '\r' :: '\n' :: s := by
    rintro ⟨t, ht⟩
    simp only [EndOfHeaders, List.cons_append, List.cons.injEq, true_and] at ht
    exact h ⟨t, ht⟩
  have h2 : ¬ EndOfHeaders <+: '\n' :: s := by
    rintro ⟨t, ht⟩
    simp [EndOfHeaders] at ht
  rw [EndOfLine, List.cons_append, List.cons_append, List.nil_append, find_cons, if_neg h1,
    find_cons, if_neg h2, Option.map_map]
  rcases find EndOfHeaders s with _ | n
  · rfl
  · rfl

/-- The empty line is the first one behind the lines; only the first of them may be empty. -/
theorem find_EndOfHeaders {line : List Char} {lines : List (List Char)}
    (hline : ¬ EndOfLine <:+: line) (h : ∀ x ∈ lines, ¬ EndOfLine <:+: x ∧ x ≠ [])
    (body : List Char) :
    ∃ n, find EndOfHeaders (writeHeaders (line :: lines) ++ body) = some n ∧
      n + EndOfHeaders.length = (writeHeaders (line :: lines)).length := by
  induction lines generalizing line with
  | nil =>
      have hend : find EndOfHeaders (EndOfLine ++ (writeHeaders [] ++ body)) = some 0 :=
        find_self_append (show EndOfHeaders ≠ [] by decide) body
      refine ⟨line.length, ?_, by simp [writeHeaders, writeLines, EndOfLine, EndOfHeaders]⟩
      rw [writeHeaders_cons, List.append_assoc, List.append_assoc,
        find_line EndOfLine_prefix hline (by simp [EndOfLine]), hend]
      simp
  | cons next lines ih =>
      have ⟨heol, hne⟩ := h next List.mem_cons_self
      obtain ⟨n, hn, hlen⟩ := ih heol fun x hx => h x (List.mem_cons_of_mem _ hx)
      have hnext : ¬ EndOfLine <+: writeHeaders (next :: lines) ++ body := by
        rw [writeHeaders_cons, List.append_assoc]
        exact not_prefix_append heol hne (by simp [EndOfLine])
      refine ⟨n + 2 + line.length, ?_, ?_⟩
      · rw [writeHeaders_cons, List.append_assoc, List.append_assoc,
          find_line EndOfLine_prefix hline (by simp [EndOfLine]), find_EndOfHeaders_cons hnext, hn]
        rfl
      · rw [writeHeaders_cons]
        simp only [List.length_append, EndOfLine, List.length_cons, List.length_nil]
        omega

theorem getHeadersBuffer_of_prefix {line : List Char} {lines : List (List Char)}
    (hline : ¬ EndOfLine <:+: line) (h : ∀ x ∈ lines, ¬ EndOfLine <:+: x ∧ x ≠ [])
    {body buffer : List Char} (hb : buffer <+: writeHeaders (line :: lines) ++ body) :
    getHeadersBuffer buffer =
      if (writeHeaders (line :: lines)).length ≤ buffer.length then writeHeaders (line :: lines)
      else [] := by
  obtain ⟨n, hn, hlen⟩ := find_EndOfHeaders hline h body
  rw [getHeadersBuffer, find_of_prefix (by decide) hb hn, hlen]
  by_cases hle : (writeHeaders (line :: lines)).length ≤ buffer.length
  · have hpre := List.prefix_of_prefix_length_le (List.prefix_append _ _) hb hle
    rw [if_pos hle, if_pos hle]
    dsimp only
    rw [hlen, List.prefix_iff_eq_take.1 hpre]
    simp [hle]
  · rw [if_neg hle, if_neg hle]

/-! ### The walk over the lines -/

theorem findFrom_append (pat p s : List Char) :
    findFrom pat (p ++ s) p.length = (find pat s).map (· + p.length) := by
  rw [findFrom, List.drop_left]

/-- From a key at the beginning of a line the next line is found. -/
theorem getNextLine_append {p line next s text : List Char} (hline : ¬ EndOfLine <:+: line)
    (hnext : ¬ EndOfLine <:+: next) (htext : text ≠ []) :
    getNextLine (p ++ (line ++ (EndOfLine ++ (next ++ (EndOfLine ++ s))))) ⟨p.length, text⟩ =
      ⟨(p ++ (line ++ EndOfLine)).length, next⟩ := by
  have h1 : findFrom EndOfLine (p ++ (line ++ (EndOfLine ++ (next ++ (EndOfLine ++ s)))))
      p.length = some (line.length + p.length) := by
    rw [findFrom_append, find_EndOfLine hline]
    rfl
  have hsplit : p ++ (line ++ (EndOfLine ++ (next ++ (EndOfLine ++ s)))) =
      (p ++ (line ++ EndOfLine)) ++ (next ++ (EndOfLine ++ s)) := by
    simp only [List.append_assoc]
  have hbegin : line.length + p.length + EndOfLine.length = (p ++ (line ++ EndOfLine)).length := by
    simp only [List.length_append]
    omega
  have h2 : findFrom EndOfLine (p ++ (line ++ (EndOfLine ++ (next ++ (EndOfLine ++ s)))))
      (line.length + p.length + EndOfLine.length) =
      some (next.length + (p ++ (line ++ EndOfLine)).length) := by
    rw [hbegin, hsplit, findFrom_append, find_EndOfLine hnext]
    rfl
  rw [getNextLine_of_find (by simp [EndOfLine]) htext h1 h2, hbegin, hsplit, List.drop_left,
    Nat.add_sub_cancel_right, List.take_left]

theorem IsLine.eol {line : List Char} (h : IsLine line) : ¬ EndOfLine <:+: line :=
  not_infix_of_cr h.cr

/-- The line is a header with the key at its beginning, and another one than `key`. -/
def Passed (key line : List Char) : Prop :=
  ∀ offset, ∃ k, (tryParseHeader ⟨offset, line⟩).key = ⟨offset, k⟩ ∧ k ≠ [] ∧ ¬ icaseEqual k key

/-- The line is the header `key`. -/
def Matched (key line : List Char) : Prop :=
  ∀ offset, (tryParseHeader ⟨offset, line⟩).Valid ∧
    icaseEqual (tryParseHeader ⟨offset, line⟩).key.text key

theorem writeHeaders_eq_cons (pre post : List (List Char)) (line : List Char) :
    ∃ s, writeHeaders (pre ++ line :: post) = pre.headD line ++ (EndOfLine ++ s) := by
  cases pre with
  | nil => exact ⟨_, writeHeaders_cons line post⟩
  | cons x pre => exact ⟨_, writeHeaders_cons x _⟩

theorem eol_headD {pre : List (List Char)} {line : List Char} (hpre : ∀ x ∈ pre, IsLine x)
    (hline : IsLine line) : ¬ EndOfLine <:+: pre.headD line := by
  cases pre with
  | nil => exact hline.eol
  | cons x pre => exact (hpre x List.mem_cons_self).eol

theorem findHeaderLoop_lines {key line : List Char} {pre post : List (List Char)}
    (hpre : ∀ x ∈ pre, IsLine x ∧ Passed key x) (hline : IsLine line) (hm : Matched key line)
    (p : List Char) {fuel : Nat} (hf : pre.length < fuel) :
    findHeaderLoop (p ++ writeHeaders (pre ++ line :: post)) key fuel
        (tryParseHeader ⟨p.length, pre.headD line⟩) =
      tryParseHeader ⟨(p ++ writeLines pre).length, line⟩ := by
  induction pre generalizing p fuel with
  | nil =>
      obtain ⟨fuel, rfl⟩ := Nat.exists_eq_succ_of_ne_zero (Nat.ne_of_gt hf)
      have ⟨hvalid, heq⟩ := hm p.length
      simp only [List.headD_nil, findHeaderLoop_succ, if_pos hvalid, if_pos heq, writeLines,
        List.flatMap_nil, List.append_nil]
  | cons x pre ih =>
      obtain ⟨fuel, rfl⟩ := Nat.exists_eq_succ_of_ne_zero (Nat.ne_of_gt (Nat.zero_lt_of_lt hf))
      have ⟨hx, hpass⟩ := hpre x List.mem_cons_self
      have hpre' := fun y hy => hpre y (List.mem_cons_of_mem x hy)
      obtain ⟨k, hk, hkne, hkey⟩ := hpass p.length
      obtain ⟨s, hs⟩ := writeHeaders_eq_cons pre post line
      have hvalid : (tryParseHeader ⟨p.length, x⟩).Valid := by rw [Header.Valid, hk]; exact hkne
      have hnot : ¬ icaseEqual (tryParseHeader ⟨p.length, x⟩).key.text key := by rwa [hk]
      have hnext : getNextHeader (p ++ writeHeaders (x :: pre ++ line :: post))
          (tryParseHeader ⟨p.length, x⟩) =
          tryParseHeader ⟨(p ++ (x ++ EndOfLine)).length, pre.headD line⟩ := by
        rw [getNextHeader, if_pos hvalid, hk, List.cons_append, writeHeaders_cons, hs,
          getNextLine_append hx.eol (eol_headD (fun y hy => (hpre' y hy).1) hline) hkne]
      have hbuffer : p ++ writeHeaders (x :: pre ++ line :: post) =
          (p ++ (x ++ EndOfLine)) ++ writeHeaders (pre ++ line :: post) := by
        rw [List.cons_append, writeHeaders_cons]
        simp only [List.append_assoc]
      rw [List.headD_cons, findHeaderLoop_succ, if_pos hvalid, if_neg hnot, hnext, hbuffer,
        ih hpre' _ (Nat.lt_of_succ_lt_succ hf), writeLines_cons]
      simp only [List.append_assoc]

/-- A first line the walk goes past: it is another header, or no header. -/
def Skipped (key line : List Char) : Prop :=
  Passed key line ∨ ∀ offset, ¬ (tryParseHeader ⟨offset, line⟩).Valid

theorem getFirstHeader_cons {line s : List Char} (h : ¬ EndOfLine <:+: line) :
    getFirstHeader (line ++ (EndOfLine ++ s)) =
      if (tryParseHeader ⟨0, line⟩).Valid then tryParseHeader ⟨0, line⟩
      else tryParseHeader (getNextLine (line ++ (EndOfLine ++ s)) ⟨0, line⟩) := by
  have hne : line ++ (EndOfLine ++ s) ≠ [] := by simp [EndOfLine]
  rw [getFirstHeader, if_neg hne, find_EndOfLine h, Option.elim_some, List.take_left]

theorem lt_fuel (start : List (List Char)) {pre post : List (List Char)} {line : List Char} :
    pre.length < (writeHeaders (start ++ pre ++ line :: post)).length + 1 := by
  have hle := length_le_writeLines (start ++ pre ++ line :: post)
  simp only [List.length_append, List.length_cons, writeHeaders] at hle ⊢
  omega

theorem valid_headD {key line : List Char} {pre : List (List Char)}
    (hpre : ∀ x ∈ pre, IsLine x ∧ Passed key x) (hm : Matched key line) (offset : Nat) :
    (tryParseHeader ⟨offset, pre.headD line⟩).Valid := by
  cases pre with
  | nil => exact (hm offset).1
  | cons x pre =>
      obtain ⟨k, hk, hne, -⟩ := (hpre x List.mem_cons_self).2 offset
      rw [List.headD_cons, Header.Valid, hk]
      exact hne

theorem findHeader_lines {key line : List Char} {pre : List (List Char)}
    (post : List (List Char)) {start : Option (List Char)}
    (hstart : ∀ s ∈ start, IsLine s ∧ Skipped key s)
    (hpre : ∀ x ∈ pre, IsLine x ∧ Passed key x) (hline : IsLine line) (hm : Matched key line) :
    findHeader (writeHeaders (start.toList ++ pre ++ line :: post)) key =
      tryParseHeader ⟨(writeLines (start.toList ++ pre)).length, line⟩ := by
  obtain ⟨s, hs⟩ := writeHeaders_eq_cons pre post line
  have heol := eol_headD (fun y hy => (hpre y hy).1) hline
  rw [findHeader]
  cases start with
  | none =>
      have hfirst : getFirstHeader (writeHeaders (pre ++ line :: post)) =
          tryParseHeader ⟨0, pre.headD line⟩ := by
        rw [hs, getFirstHeader_cons heol, if_pos (valid_headD hpre hm 0)]
      simp only [Option.toList_none, List.nil_append, hfirst]
      exact findHeaderLoop_lines hpre hline hm [] (lt_fuel [])
  | some x =>
      obtain ⟨hx, hskip⟩ := hstart x rfl
      by_cases hvalid : (tryParseHeader ⟨0, x⟩).Valid
      · -- the walk begins at the first line, one more line that is passed
        have hpass : Passed key x := hskip.resolve_right fun h => h 0 hvalid
        have hpre' : ∀ y ∈ x :: pre, IsLine y ∧ Passed key y := by
          rintro y (_ | ⟨_, hy⟩)
          · exact ⟨hx, hpass⟩
          · exact hpre y hy
        have hfirst : getFirstHeader (writeHeaders (x :: pre ++ line :: post)) =
            tryParseHeader ⟨0, x⟩ := by
          rw [List.cons_append, writeHeaders_cons, getFirstHeader_cons hx.eol, if_pos hvalid]
        simp only [Option.toList_some, List.singleton_append, hfirst]
        exact findHeaderLoop_lines hpre' hline hm [] (lt_fuel [])
      · -- no header: the walk begins at the line behind it
        have hbuffer : writeHeaders (x :: pre ++ line :: post) =
            (x ++ EndOfLine) ++ writeHeaders (pre ++ line :: post) := by
          rw [List.cons_append, writeHeaders_cons, List.append_assoc]
        have hnext : getNextLine (x ++ (EndOfLine ++ (pre.headD line ++ (EndOfLine ++ s)))) ⟨0, x⟩ =
            ⟨(x ++ EndOfLine).length, pre.headD line⟩ :=
          getNextLine_append (p := []) hx.eol heol hx.ne_nil
        have hfirst : getFirstHeader (writeHeaders (x :: pre ++ line :: post)) =
            tryParseHeader ⟨(x ++ EndOfLine).length, pre.headD line⟩ := by
          rw [List.cons_append, writeHeaders_cons, hs, getFirstHeader_cons hx.eol, if_neg hvalid,
            hnext]
        have hlines : writeLines (x :: pre) = (x ++ EndOfLine) ++ writeLines pre := by
          rw [writeLines_cons, List.append_assoc]
        simp only [Option.toList_some, List.singleton_append, hfirst, hlines]
        rw [hbuffer]
        refine findHeaderLoop_lines hpre hline hm (x ++ EndOfLine) ?_
        rw [← hbuffer]
        exact lt_fuel [x]

/-! ### Fields -/

theorem dropWhile_spaces (n : Nat) {s : List Char} (h : s.head? ≠ some ' ') :
    (List.replicate n ' ' ++ s).dropWhile (· = ' ') = s := by
  induction n with
  | zero =>
      cases s with
      | nil => rfl
      | cons c s => simp_all
  | succ n ih => simpa [List.replicate_succ] using ih

theorem trimStart_text (str : View) :
    (trimStart str).text = str.text.dropWhile (· = ' ') := by
  rw [trimStart]
  split
  case isTrue h => exact h.symm
  case isFalse => rfl

theorem trimEnd_spaces {s : List Char} (h : s.getLast? ≠ some ' ') (offset n : Nat) :
    trimEnd ⟨offset, s ++ List.replicate n ' '⟩ = ⟨offset, s⟩ := by
  have hs : s.reverse.head? ≠ some ' ' := by simpa using h
  simp only [trimEnd, List.reverse_append, List.reverse_replicate, dropWhile_spaces n hs,
    List.reverse_reverse]

theorem trim_padded {text : List Char} (hhead : text.head? ≠ some ' ')
    (hlast : text.getLast? ≠ some ' ') (offset leading trailing : Nat) :
    (trim ⟨offset, List.replicate leading ' ' ++ text ++ List.replicate trailing ' '⟩).text =
      text := by
  rw [trim]
  rcases List.eq_nil_or_concat' text with rfl | ⟨text', c, rfl⟩
  · -- nothing but spaces: all of them go at the end
    rw [List.append_nil, ← List.replicate_add,
      ← List.nil_append (List.replicate (leading + trailing) ' '),
      trimEnd_spaces (by simp), trimStart_text]
    rfl
  · have hl : (List.replicate leading ' ' ++ (text' ++ [c])).getLast? ≠ some ' ' := by
      simpa [← List.append_assoc] using hlast
    rw [trimEnd_spaces hl, trimStart_text]
    exact dropWhile_spaces leading hhead

theorem trimStart_eq {text : List Char} (hne : text ≠ []) (hhead : text.head? ≠ some ' ')
    (offset : Nat) : trimStart ⟨offset, text⟩ = ⟨offset, text⟩ := by
  have hdrop : text.dropWhile (· = ' ') = text := dropWhile_spaces 0 hhead
  simp only [trimStart, hdrop, if_neg hne, Nat.sub_self, Nat.add_zero]

theorem trim_eq {text : List Char} (hne : text ≠ []) (hspace : ' ' ∉ text) (offset : Nat) :
    trim ⟨offset, text⟩ = ⟨offset, text⟩ := by
  have hend : trimEnd ⟨offset, text ++ List.replicate 0 ' '⟩ = ⟨offset, text⟩ :=
    trimEnd_spaces (fun h => hspace (List.mem_of_getLast? h)) offset 0
  rw [List.replicate_zero, List.append_nil] at hend
  rw [trim, hend, trimStart_eq hne fun h => hspace (List.mem_of_head? h)]

/-- A line is cut at its first `:`. -/
theorem tryParseHeader_colon {key : List Char} (h : ':' ∉ key) (value : List Char)
    (offset : Nat) :
    tryParseHeader ⟨offset, key ++ ':' :: value⟩ =
      { key := trim ⟨offset, key⟩, value := trim ⟨offset + key.length + 1, value⟩ } := by
  have hcolon : find [':'] (':' :: value) = some 0 := find_self_append (List.cons_ne_nil ':' []) _
  have hfind : find [':'] (key ++ ':' :: value) = some key.length := by
    rw [find_append rfl h, hcolon, Option.map_some, Nat.zero_add]
  have hvalue : (key ++ ':' :: value).drop (key.length + 1) = value := by
    rw [← List.drop_drop, List.drop_left]
    rfl
  rw [tryParseHeader_of_find hfind]
  dsimp only
  rw [List.take_left, hvalue]

/-- A header field: a name without separators, and a value between spaces. -/
structure Field where
  name : List Char
  value : List Char
  leading : Nat := 0
  trailing : Nat := 0
  name_ne : name ≠ []
  name_token : ∀ c ∈ name, c ≠ ':' ∧ c ≠ ' ' ∧ c ≠ '\r'
  value_cr : '\r' ∉ value
  value_head : value.head? ≠ some ' '
  value_last : value.getLast? ≠ some ' '

namespace Field

def line (f : Field) : List Char :=
  f.name ++ ':' :: (List.replicate f.leading ' ' ++ f.value ++ List.replicate f.trailing ' ')

theorem isLine (f : Field) : IsLine f.line where
  ne_nil := by simp [line]
  cr := by
    have hname : '\r' ∉ f.name := fun h => (f.name_token _ h).2.2 rfl
    simp [line, hname, f.value_cr]

theorem tryParseHeader_line (f : Field) (offset : Nat) :
    tryParseHeader ⟨offset, f.line⟩ =
      { key := trim ⟨offset, f.name⟩
        value := trim ⟨offset + f.name.length + 1,
          List.replicate f.leading ' ' ++ f.value ++ List.replicate f.trailing ' '⟩ } := by
  have hname : ':' ∉ f.name := fun h => (f.name_token _ h).1 rfl
  exact tryParseHeader_colon hname _ offset

theorem key_eq (f : Field) (offset : Nat) :
    (tryParseHeader ⟨offset, f.line⟩).key = ⟨offset, f.name⟩ := by
  have hspace : ' ' ∉ f.name := fun h => (f.name_token _ h).2.1 rfl
  rw [tryParseHeader_line]
  exact trim_eq f.name_ne hspace offset

theorem value_eq (f : Field) (offset : Nat) :
    (tryParseHeader ⟨offset, f.line⟩).value.text = f.value := by
  rw [tryParseHeader_line]
  exact trim_padded f.value_head f.value_last _ _ _

theorem passed {f : Field} {key : List Char} (h : ¬ icaseEqual f.name key) : Passed key f.line :=
  fun offset => ⟨f.name, f.key_eq offset, f.name_ne, h⟩

theorem matched {f : Field} {key : List Char} (h : icaseEqual f.name key) : Matched key f.line :=
  fun offset => by
    rw [Header.Valid, f.key_eq]
    exact ⟨f.name_ne, h⟩

end Field

/-- A request line: the method, a space and the rest. -/
structure RequestLine where
  method : List Char
  rest : List Char
  method_ne : method ≠ []
  method_token : ∀ c ∈ method, c ≠ ':' ∧ c ≠ ' ' ∧ c ≠ '\r'
  rest_cr : '\r' ∉ rest

namespace RequestLine

def line (r : RequestLine) : List Char := r.method ++ ' ' :: r.rest

theorem isLine (r : RequestLine) : IsLine r.line where
  ne_nil := by simp [line]
  cr := by
    have hmethod : '\r' ∉ r.method := fun h => (r.method_token _ h).2.2 rfl
    simp [line, hmethod, r.rest_cr]

/-- What the trimmed text before a `:` is: the method, or something with a space in it. -/
theorem trim_method (r : RequestLine) (offset : Nat) (x : List Char) :
    ∃ k, trim ⟨offset, r.method ++ ' ' :: x⟩ = ⟨offset, k⟩ ∧ k ≠ [] ∧
      (k = r.method ∨ ' ' ∈ k) := by
  have hspace : ' ' ∉ r.method := fun h => (r.method_token _ h).2.1 rfl
  obtain ⟨t, n, hx, ht⟩ := exists_append_replicate ' ' (' ' :: x)
  rcases List.eq_nil_or_concat' t with rfl | ⟨t', c, rfl⟩
  · refine ⟨r.method, ?_, r.method_ne, Or.inl rfl⟩
    rw [trim, hx, List.nil_append, trimEnd_spaces fun h => hspace (List.mem_of_getLast? h),
      trimStart_eq r.method_ne fun h => hspace (List.mem_of_head? h)]
  · have hne : r.method ++ (t' ++ [c]) ≠ [] := by simp
    have hlast : (r.method ++ (t' ++ [c])).getLast? ≠ some ' ' := by
      simpa [← List.append_assoc] using ht
    have hhead : (r.method ++ (t' ++ [c])).head? ≠ some ' ' := fun h => by
      rw [List.head?_append_of_ne_nil _ r.method_ne] at h
      exact hspace (List.mem_of_head? h)
    refine ⟨_, ?_, hne, Or.inr (List.mem_append_right _ ?_)⟩
    · rw [trim, hx, ← List.append_assoc, trimEnd_spaces hlast, trimStart_eq hne hhead]
    · -- the text behind the method begins with a space, and something else is at its end
      rcases t' with _ | ⟨d, t'⟩
      · have : ' ' = c := by simpa using congrArg List.head? hx
        exact this ▸ List.mem_cons_self
      · have : ' ' = d := by simpa using congrArg List.head? hx
        exact this ▸ List.mem_cons_self

theorem skipped (r : RequestLine) {key : List Char} (hspace : ' ' ∉ key.map Char.toLower)
    (h : ¬ icaseEqual r.method key) : Skipped key r.line := by
  have hmethod : ':' ∉ r.method := fun h => (r.method_token _ h).1 rfl
  rcases hfind : find [':'] r.rest with _ | index
  · refine Or.inr fun offset => ?_
    have hline : find [':'] r.line = none := by
      rw [line, find_append rfl hmethod, find_cons, if_neg (by simp), hfind]
      rfl
    simp [tryParseHeader, hline, Header.Valid]
  · refine Or.inl fun offset => ?_
    have hline : find [':'] r.line = some (index + 1 + r.method.length) := by
      rw [line, find_append rfl hmethod, find_cons, if_neg (by simp), hfind]
      rfl
    have htake : r.line.take (index + 1 + r.method.length) =
        r.method ++ ' ' :: r.rest.take index := by
      rw [line, Nat.add_comm, List.take_length_add_append]
      rfl
    obtain ⟨k, hk, hne, hcases⟩ := r.trim_method offset (r.rest.take index)
    refine ⟨k, ?_, hne, ?_⟩
    · rw [tryParseHeader_of_find hline]
      dsimp only
      rw [htake, hk]
    · rintro heq
      rcases hcases with rfl | hmem
      · exact h heq
      · exact hspace (heq ▸ List.mem_map_of_mem hmem)

end RequestLine

end MyEngine.Network
