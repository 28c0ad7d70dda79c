import MyEngine.Debug.DapPacket
import MyEngine.Io.MemoryStream

/-!
# Debug — DapResponse

`makeDapHttpResponsePacket` of `dap_utils.cpp`: the body is written to a memory stream, and the
packet is put together from the headers, with the size of what the stream has released, and the
body.

* `responsePacket`: the packet that is meant.
* `makeDapHttpResponsePacket_contents`: the bytes of a packet smaller than 4 GiB.
* `framed_of_lt`: `HttpParser` finds the body in it.
-/

namespace MyEngine.Debug

open Network HttpParser Memory Io Support

/-! ### The code -/

/-- The writes `serialization::jsonWrite` makes for a body, each with what a storage holds that is
made for it. -/
abbrev Writes := List (List Char × (ℕ → Char))

/-- The serialized body. -/
def Writes.bytes (writes : Writes) : List Char := (writes.map Prod.fst).flatten

/-- The writes to the content stream. -/
def writeAll (stream : MemoryStreamImpl Char) :
    Writes → Except BytesFault (MemoryStreamImpl Char)
  | []                      => .ok stream
  | (bytes, junk) :: writes =>
      match stream.write junk bytes with
      | .error e        => .error e
      | .ok (_, stream) => writeAll stream writes

def responseHeaders (path : List Char) (size : ℕ) : List Char :=
  "POST ".toList ++ path ++ " HTTP/1.1\r\n".toList ++ "Content-Type: application/json\r\n".toList ++
    "Content-Length: ".toList ++ Nat.toDigits 10 size ++ "\r\n\r\n".toList

/-- The two copies to the packet. -/
def copyToPacket (responsePacket : Buffer Char) (headers : List Char)
    (responseContent : Buffer Char) : Except BytesFault (Buffer Char) :=
  match responsePacket.memcpyTo 0 headers with
  | .error e           => .error e
  | .ok responsePacket =>
      match responseContent.memcpyFrom 0 responseContent.size with
      | .error e  => .error e
      | .ok bytes => responsePacket.memcpyTo headers.length bytes

/-- `makeDapHttpResponsePacket`; `junk` is what the packet's storage holds. -/
def makeDapHttpResponsePacket (path : List Char) (body : Writes) (junk : ℕ → Char) :
    Except BytesFault (Buffer Char) :=
  match writeAll {} body with
  | .error e   => .error e
  | .ok stream =>
      let responseContent := stream.releaseBuffer.1
      let headers := responseHeaders path responseContent.size
      match Buffer.resize junk {} (headers.length + responseContent.size) with
      | .error e           => .error e
      | .ok responsePacket => copyToPacket responsePacket headers responseContent

/-- The parser accepts the packet, and what is behind the headers it finds is as long as it says,
and the body. -/
structure Framed (ulongMax : ℕ) (packet body : List Char) : Prop where
  valid : (HttpParser.ofBuffer packet).Valid
  length : (HttpParser.ofBuffer packet).contentLength ulongMax =
    .ok (packet.drop (HttpParser.ofBuffer packet).headersLength).length
  body : packet.drop (HttpParser.ofBuffer packet).headersLength = body

/-! ### The packet -/

theorem decimal_toDigits (n : ℕ) : decimal (Nat.toDigits 10 n) = n :=
  Nat.ofDigitChars_eq_foldl.symm.trans Nat.ofDigitChars_ten_toDigits

theorem isdigit_of_mem_toDigits {n : ℕ} {c : Char} (h : c ∈ Nat.toDigits 10 n) : isdigit c := by
  have hc := Nat.isDigit_of_mem_toDigits (by decide) (by decide) h
  rw [Char.isDigit, Bool.and_eq_true, decide_eq_true_eq, decide_eq_true_eq] at hc
  rw [isdigit, decide_eq_true_eq]
  exact hc

theorem space_not_mem_toDigits (n : ℕ) :
    ' ' ∉ Nat.toDigits 10 n ∧ '\r' ∉ Nat.toDigits 10 n := by
  refine ⟨fun h => ?_, fun h => ?_⟩
  · exact absurd (isdigit_of_mem_toDigits h) (by decide)
  · exact absurd (isdigit_of_mem_toDigits h) (by decide)

theorem token_of_all {s : List Char} (h : s.all fun c => c ≠ ':' ∧ c ≠ ' ' ∧ c ≠ '\r') :
    ∀ c ∈ s, c ≠ ':' ∧ c ≠ ' ' ∧ c ≠ '\r' := fun c hc =>
  of_decide_eq_true (List.all_eq_true.1 h c hc)

def requestLine (path : List Char) (hpath : '\r' ∉ path) : RequestLine where
  method := "POST".toList
  rest := path ++ " HTTP/1.1".toList
  method_ne := by decide
  method_token := token_of_all (by decide)
  rest_cr := by simpa using hpath

def contentType : Field where
  name := "Content-Type".toList
  value := "application/json".toList
  leading := 1
  name_ne := by decide
  name_token := token_of_all (by decide)
  value_cr := by decide
  value_head := by decide
  value_last := by decide

theorem contentLength_ne_nil : ContentLength ≠ [] := by decide

theorem contentLength_token : ∀ c ∈ ContentLength, c ≠ ':' ∧ c ≠ ' ' ∧ c ≠ '\r' :=
  token_of_all (by decide)

def contentLengthField (n : ℕ) : Field where
  name := ContentLength
  value := Nat.toDigits 10 n
  leading := 1
  name_ne := contentLength_ne_nil
  name_token := contentLength_token
  value_cr := (space_not_mem_toDigits n).2
  value_head := fun h => (space_not_mem_toDigits n).1 (List.mem_of_head? h)
  value_last := fun h => (space_not_mem_toDigits n).1 (List.mem_of_getLast? h)

theorem no_field_after : ∀ f ∈ ([] : List Field), ¬ icaseEqual f.name ContentLength :=
  List.forall_mem_nil _

def responsePacket (path body : List Char) (hpath : '\r' ∉ path) : Packet where
  request := some (requestLine path hpath)
  before := [contentType]
  contentLength := contentLengthField body.length
  body := body
  request_other := by
    intro r hr
    obtain rfl := Option.some.inj hr
    have hmethod : ¬ icaseEqual "POST".toList ContentLength := by decide
    exact hmethod
  before_other := by
    intro f hf
    obtain rfl := List.mem_singleton.1 hf
    decide
  after_other := no_field_after
  name_eq := icaseEqual_refl ContentLength
  digits_ne := Nat.toDigits_ne_nil
  digits := List.all_eq_true.2 fun _ h => isdigit_of_mem_toDigits h
  value_eq := decimal_toDigits body.length

theorem requestLine_line (path : List Char) (hpath : '\r' ∉ path) :
    (requestLine path hpath).line ++ EndOfLine =
      "POST ".toList ++ path ++ " HTTP/1.1\r\n".toList := by
  have hend : " HTTP/1.1\r\n".toList = " HTTP/1.1".toList ++ EndOfLine := by decide
  have hpost : "POST ".toList = "POST".toList ++ [' '] := by decide
  rw [hend, hpost, RequestLine.line, requestLine]
  simp only [List.append_assoc, List.cons_append, List.nil_append]

theorem contentType_line :
    contentType.line ++ EndOfLine = "Content-Type: application/json\r\n".toList := by decide

theorem contentLengthField_line (n : ℕ) :
    (contentLengthField n).line ++ (EndOfLine ++ EndOfLine) =
      "Content-Length: ".toList ++ Nat.toDigits 10 n ++ "\r\n\r\n".toList := by
  have hend : "\r\n\r\n".toList = EndOfLine ++ EndOfLine := by decide
  have hname : "Content-Length: ".toList = ContentLength ++ [':', ' '] := by decide
  rw [hend, hname, Field.line, contentLengthField, List.replicate_zero, List.append_nil,
    List.replicate_one]
  simp only [List.append_assoc, List.cons_append, List.nil_append]

theorem responseHeaders_eq (path body : List Char) (hpath : '\r' ∉ path) :
    responseHeaders path body.length = (responsePacket path body hpath).headers := by
  have hassoc : ∀ a b c d e f g : List Char,
      a ++ b ++ c ++ d ++ e ++ f ++ g = a ++ b ++ c ++ (d ++ (e ++ f ++ g)) := by
    intro a b c d e f g
    simp only [List.append_assoc]
  have hlines : (responsePacket path body hpath).lines = [(requestLine path hpath).line,
      contentType.line, (contentLengthField body.length).line] := rfl
  calc responseHeaders path body.length
      = ((requestLine path hpath).line ++ EndOfLine) ++ ((contentType.line ++ EndOfLine) ++
          ((contentLengthField body.length).line ++ (EndOfLine ++ EndOfLine))) := by
        rw [requestLine_line, contentType_line, contentLengthField_line body.length]
        exact hassoc _ path _ _ _ _ _
    _ = (responsePacket path body hpath).headers := by
        rw [Packet.headers, hlines]
        simp only [writeHeaders, writeLines, List.flatMap_cons, List.flatMap_nil, List.append_nil,
          List.append_assoc]

/-! ### The content -/

/-- What is written behind the last byte is appended. -/
theorem writeAll_spec {stream : MemoryStreamImpl Char} {c : Contents Char} (h : stream.Refines c)
    (hend : c.pos = c.bytes.length) {writes : Writes}
    (hlt : c.bytes.length + writes.bytes.length < 2 ^ 32) :
    ∃ stream', writeAll stream writes = .ok stream' ∧ stream'.buffer.Sound ∧
      stream'.buffer.contents = c.bytes ++ writes.bytes := by
  induction writes generalizing stream c with
  | nil => exact ⟨stream, rfl, h.sound, by rw [h.contents]; exact (List.append_nil _).symm⟩
  | cons call writes ih =>
      obtain ⟨bytes, junk⟩ := call
      have hbytes : Writes.bytes ((bytes, junk) :: writes) = bytes ++ Writes.bytes writes := rfl
      rw [hbytes, List.length_append] at hlt
      have hbelow : stream.pos + bytes.length < 2 ^ 32 := by
        rw [h.pos, hend]
        omega
      obtain ⟨stream₁, hwrite, href⟩ := write_spec junk h hbelow
      have happend : (c.write bytes).bytes = c.bytes ++ bytes := by
        change overwrite c.bytes c.pos bytes = c.bytes ++ bytes
        rw [hend, overwrite_length]
      have hend₁ : (c.write bytes).pos = (c.write bytes).bytes.length := by
        rw [happend, List.length_append, ← hend]
        rfl
      obtain ⟨stream', hall, hsound, hcontents⟩ := ih href hend₁ (by
        rw [happend, List.length_append]
        omega)
      refine ⟨stream', ?_, hsound, ?_⟩
      · simp only [writeAll, hwrite, hall]
      · rw [hcontents, happend, hbytes, List.append_assoc]

theorem writeAll_empty {writes : Writes} (hlt : writes.bytes.length < 2 ^ 32) :
    ∃ stream, writeAll {} writes = .ok stream ∧ stream.buffer.Sound ∧
      stream.buffer.contents = writes.bytes := by
  have hinit : MemoryStreamImpl.Refines ({} : MemoryStreamImpl Char) Contents.empty := by
    refine ⟨fun header hheader => ?_, rfl, rfl⟩
    cases hheader
  exact writeAll_spec hinit rfl (by
    change 0 + writes.bytes.length < 2 ^ 32
    omega)

/-! ### The packet's bytes -/

section
variable {path : List Char} {writes : Writes} (junk : ℕ → Char)

/-- The packet is made once the content is. -/
theorem makeDapHttpResponsePacket_eq (hlt : writes.bytes.length < 2 ^ 32) :
    ∃ responseContent : Buffer Char, responseContent.Sound ∧
      responseContent.contents = writes.bytes ∧
      makeDapHttpResponsePacket path writes junk =
        copyToPacket ⟨some (allocate junk
          ((responseHeaders path writes.bytes.length).length + writes.bytes.length))⟩
          (responseHeaders path writes.bytes.length) responseContent := by
  obtain ⟨stream, hall, hsound, hcontents⟩ := writeAll_empty hlt
  have hsize : stream.buffer.size = writes.bytes.length := by
    rw [← hcontents, Buffer.length_contents hsound]
  refine ⟨stream.buffer, hsound, hcontents, ?_⟩
  simp only [makeDapHttpResponsePacket, hall, MemoryStreamImpl.releaseBuffer, hsize]
  rfl

theorem copyToPacket_spec {packet content : Buffer Char} {headers : List Char}
    (hpacket : packet.Sound) (hcontent : content.Sound)
    (hsize : packet.size = headers.length + content.size) :
    ∃ packet', copyToPacket packet headers content = .ok packet' ∧
      packet'.contents = headers ++ content.contents := by
  have hlen := Buffer.length_contents hcontent
  have hfrom := Buffer.memcpyFrom_spec hcontent (Nat.le_of_eq (Nat.zero_add content.size))
  rw [List.drop_zero, List.take_of_length_le (Nat.le_of_eq hlen)] at hfrom
  have hfits : 0 + headers.length ≤ packet.size := by omega
  obtain ⟨packet₁, hto, hsound₁, hcontents₁⟩ := Buffer.memcpyTo_spec hpacket hfits
  have hlen₁ : packet₁.contents.length = packet.size := by
    rw [hcontents₁, length_overwrite (Nat.zero_le _), Buffer.length_contents hpacket]
    omega
  have hfits₁ : headers.length + content.contents.length ≤ packet₁.size := by
    rw [← Buffer.length_contents hsound₁, hlen₁, hlen, hsize]
  obtain ⟨packet', hto', -, hcontents'⟩ := Buffer.memcpyTo_spec hsound₁ hfits₁
  refine ⟨packet', by simp only [copyToPacket, hto, hfrom, hto'], ?_⟩
  rw [hcontents', overwrite, List.drop_eq_nil_of_le (by omega), List.append_nil, hcontents₁,
    overwrite, List.take_zero, List.nil_append, List.take_left]

theorem makeDapHttpResponsePacket_contents
    (hlt : (responseHeaders path writes.bytes.length).length + writes.bytes.length < 2 ^ 32) :
    ∃ packet, makeDapHttpResponsePacket path writes junk = .ok packet ∧
      packet.contents = responseHeaders path writes.bytes.length ++ writes.bytes := by
  have hbody : writes.bytes.length < 2 ^ 32 := Nat.lt_of_le_of_lt (Nat.le_add_left _ _) hlt
  obtain ⟨content, hsound, hcontents, hmake⟩ := makeDapHttpResponsePacket_eq junk hbody
  obtain ⟨hnew, -⟩ := allocate_sound junk (hlt.trans (by decide))
  have hpacket : Buffer.Sound ⟨some (allocate junk
      ((responseHeaders path writes.bytes.length).length + writes.bytes.length))⟩ := by
    rintro _ ⟨⟩
    exact hnew
  have hlen := Buffer.length_contents hsound
  rw [hcontents] at hlen
  obtain ⟨packet, hcopy, hbytes⟩ := copyToPacket_spec hpacket hsound
    ((allocate_size junk hlt).trans (congrArg _ hlen))
  exact ⟨packet, hmake.trans hcopy, hbytes.trans (congrArg _ hcontents)⟩

/-- **The packet is read back**: where a buffer can hold it, the parser finds the body in it. -/
theorem framed_of_lt {ulongMax : ℕ} (hmax : 2 ^ 32 - 1 ≤ ulongMax) (hpath : '\r' ∉ path)
    (hlt : (responseHeaders path writes.bytes.length).length + writes.bytes.length < 2 ^ 32) :
    ∃ packet, makeDapHttpResponsePacket path writes junk = .ok packet ∧
      Framed ulongMax packet.contents writes.bytes := by
  obtain ⟨packet, hmake, hbytes⟩ := makeDapHttpResponsePacket_contents junk hlt
  have hheaders := responseHeaders_eq path writes.bytes hpath
  have hkept : HttpParser.ofBuffer packet.contents =
      ⟨responseHeaders path writes.bytes.length⟩ := by
    rw [hbytes, hheaders, HttpParser.ofBuffer,
      (responsePacket path writes.bytes hpath).getHeadersBuffer_eq (List.prefix_refl _),
      List.length_append, if_pos (Nat.le_add_right _ _)]
  have hrest : packet.contents.drop (HttpParser.ofBuffer packet.contents).headersLength =
      writes.bytes := by
    rw [hkept, HttpParser.headersLength, hbytes, List.drop_left]
  have hfits : ¬ ulongMax < writes.bytes.length := by omega
  refine ⟨packet, hmake, ?_, ?_, hrest⟩
  · rw [hkept, hheaders]
    exact List.ne_nil_of_length_pos (headers_length_pos _)
  · rw [hrest, hkept, hheaders, contentLength_eq]
    exact if_neg hfits

/-- The packet of a body `{}`. -/
theorem framed_braces :
    ∃ packet, makeDapHttpResponsePacket ['/'] [(['{'], fun _ => ' '), (['}'], fun _ => ' ')]
        (fun _ => ' ') = .ok packet ∧ Framed (2 ^ 32 - 1) packet.contents ['{', '}'] :=
  framed_of_lt (fun _ => ' ') (Nat.le_refl _) (by decide) (by decide)

/-! ### Packets that a buffer cannot hold -/

/-- The size of the packet is one of 32 bits: a reader sees less than the headers. -/
theorem contents_of_ge {k : ℕ} (hlt : writes.bytes.length < 2 ^ 32) (hk : 0 < k)
    (hle : k < 2 ^ 32)
    (hlen : (responseHeaders path writes.bytes.length).length + writes.bytes.length = 2 ^ 32 + k)
    {packet : Buffer Char}
    (hmake : makeDapHttpResponsePacket path writes junk = .ok packet) :
    packet.contents = (responseHeaders path writes.bytes.length).take k := by
  obtain ⟨content, hsound, hcontents, heq⟩ := makeDapHttpResponsePacket_eq junk hlt
  have hcontent := Buffer.length_contents hsound
  have hfrom := Buffer.memcpyFrom_spec hsound (Nat.le_of_eq (Nat.zero_add content.size))
  rw [List.drop_zero, List.take_of_length_le (Nat.le_of_eq hcontent), hcontents] at hfrom
  obtain ⟨hnew, hroom⟩ := allocate_sound junk (show 2 ^ 32 + k < 2 ^ 63 by omega)
  have hsize : (allocate junk (2 ^ 32 + k)).size = k := by
    change (2 ^ 32 + k) % 2 ^ 32 = k
    omega
  have hne : (allocate junk (2 ^ 32 + k)).size ≠ 0 := by omega
  rw [heq, hlen] at hmake
  -- of the new storage and the headers only the sizes matter
  generalize allocate junk (2 ^ 32 + k) = header at hnew hroom hsize hne hmake
  generalize responseHeaders path writes.bytes.length = headers at hlen hmake ⊢
  have hfits : 0 + headers.length ≤ header.memory.length := by omega
  have hto := Buffer.memcpyTo_memory hnew hne hfits
  have hlength : (overwrite header.memory 0 headers).length = header.memory.length := by
    rw [length_overwrite (Nat.zero_le _)]
    omega
  have hto' := Buffer.memcpyTo_memory (Buffer.sound_overwrite hnew hfits) hne
    (show headers.length + writes.bytes.length ≤ (overwrite header.memory 0 headers).length by
      rw [hlength]
      omega)
  simp only [copyToPacket, hto, hfrom, hto', Except.ok.injEq] at hmake
  rw [← hmake]
  change (overwrite (overwrite header.memory 0 headers) headers.length writes.bytes).take
    header.size = headers.take k
  have hbefore : k ≤ headers.length := by omega
  rw [hsize, take_overwrite_of_le (by omega) hbefore, overwrite, List.take_zero, List.nil_append,
    List.take_append_of_le_length hbefore]

/-- Without the end of the headers the parser has nothing. -/
theorem not_framed_of_ge {k ulongMax : ℕ} (hpath : '\r' ∉ path)
    (hlt : writes.bytes.length < 2 ^ 32) (hk : 0 < k) (hle : k < 2 ^ 32)
    (hlen : (responseHeaders path writes.bytes.length).length + writes.bytes.length = 2 ^ 32 + k) :
    ¬ ∃ packet, makeDapHttpResponsePacket path writes junk = .ok packet ∧
      Framed ulongMax packet.contents writes.bytes := by
  rintro ⟨packet, hmake, hframed⟩
  have hbytes := contents_of_ge junk hlt hk hle hlen hmake
  have hheaders := responseHeaders_eq path writes.bytes hpath
  have hpre : packet.contents <+: (responsePacket path writes.bytes hpath).headers ++ [] := by
    rw [List.append_nil, ← hheaders, hbytes]
    exact List.take_prefix _ _
  refine hframed.valid ?_
  change getHeadersBuffer packet.contents = []
  rw [Packet.getHeadersBuffer_eq _ hpre, ← hheaders, hbytes, List.length_take]
  exact if_neg (by omega)

end

/-- The string of `n` letters, as it is written. -/
def letters (n : ℕ) : List Char := '"' :: (List.replicate n 'x' ++ ['"'])

/-- A body of one byte less than 4 GiB: of the 78 bytes of the headers, 77 are seen. -/
theorem not_framed_letters :
    ¬ ∃ packet, makeDapHttpResponsePacket [] [(letters (2 ^ 32 - 3), fun _ => ' ')]
        (fun _ => ' ') = .ok packet ∧
      Framed (2 ^ 64 - 1) packet.contents (letters (2 ^ 32 - 3)) := by
  have hletters : (letters (2 ^ 32 - 3)).length = 2 ^ 32 - 1 := by
    rw [letters, List.length_cons, List.length_append, List.length_replicate]
    decide
  generalize letters (2 ^ 32 - 3) = content at hletters
  have hbytes : Writes.bytes [(content, fun _ => ' ')] = content := List.append_nil content
  have hheaders : (responseHeaders [] (2 ^ 32 - 1)).length = 78 := by decide +kernel
  have hlt : (Writes.bytes [(content, fun _ => ' ')]).length < 2 ^ 32 := by
    rw [hbytes, hletters]
    decide
  have hlen : (responseHeaders [] (Writes.bytes [(content, fun _ => ' ')]).length).length +
      (Writes.bytes [(content, fun _ => ' ')]).length = 2 ^ 32 + 77 := by
    rw [hbytes, hletters, hheaders]
    decide
  have hnot : ¬ ∃ packet, makeDapHttpResponsePacket [] [(content, fun _ => ' ')]
      (fun _ => ' ') = .ok packet ∧
      Framed (2 ^ 64 - 1) packet.contents (Writes.bytes [(content, fun _ => ' ')]) :=
    not_framed_of_ge (fun _ => ' ') (by decide) hlt (by decide) (by decide) hlen
  rwa [hbytes] at hnot

end MyEngine.Debug
