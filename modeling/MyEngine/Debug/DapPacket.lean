import Mathlib.Algebra.GroupWithZero.Nat
import MyEngine.Network.HeaderLines

/-!
# Debug — DapPacket

`dap_utils.cpp`: `readHttpPacket` reads chunks from the stream until it has the end of the
headers, and `parseDapRequestToDictionary` takes the content that stands behind them.

* `Packet`: a well formed packet.
* `Delivers`: a session gives the bodies one by one and loses no byte.
* `delivers_iff_aligned`: that is so exactly when the read that completes the headers of a
  packet ends where the packet ends.
-/

namespace MyEngine.Debug

open Network HttpParser

/-! ### The code -/

structure RawPacket where
  buffer : List Char
  http : HttpParser
  deriving DecidableEq, Repr

/-- What one `stream.read()` gives. -/
abbrev Chunk := List Char

/-- `readHttpPacket` on the chunks the stream still has; `packet` is what was read so far.  The
chunks behind the packet are left to the next call. -/
def readHttpPacket (packet : List Char) : List Chunk → Except String RawPacket × List Chunk
  | []               => (.error "Unexpected end of steram", [])
  | buffer :: stream =>
      let packet := packet ++ buffer
      let http := HttpParser.ofBuffer packet
      if http.Valid then
        if http.hasHeader ContentLength then (.ok ⟨packet, http⟩, stream)
        else (.error "Invalid packet: no Content-Length", stream)
      else readHttpPacket packet stream

/-- `serialization::jsonParseString` and the `is<ReadonlyDictionary>` of what it gives. -/
structure Json (V : Type) where
  jsonParseString : List Char → Except String V
  isDictionary : V → Bool

/-- How `parseDapRequestToDictionary` ends: `std::stoul` throws, the view of the content leaves
the buffer, or the content is parsed. -/
inductive Request (V : Type) where
  | thrown (e : StdException)
  | outOfBounds
  | parsed (content : List Char) (result : Except String V)

section

variable {V : Type} (json : Json V) (ulongMax : Nat)

def parseDapRequestToDictionary (packet : RawPacket) : Request V :=
  match packet.http.contentLength ulongMax with
  | .error e   => .thrown e
  | .ok length =>
      if packet.http.headersLength + length ≤ packet.buffer.length then
        let content := (packet.buffer.drop packet.http.headersLength).take length
        .parsed content <| match json.jsonParseString content with
          | .error e      => .error e
          | .ok parsed =>
              if json.isDictionary parsed then .ok parsed
              else .error "Invalid json document: expexted dictionary"
      else .outOfBounds

/-- One round of the session: read a packet, then parse it. -/
def receive (stream : List Chunk) : Except String (Request V) × List Chunk :=
  ((readHttpPacket [] stream).1.map (parseDapRequestToDictionary json ulongMax),
    (readHttpPacket [] stream).2)

/-- `n` rounds, with the number of bytes each of them received. -/
def session : Nat → List Chunk → List (Except String (Request V) × Nat)
  | 0, _          => []
  | n + 1, stream =>
      ((receive json ulongMax stream).1,
        stream.flatten.length - (receive json ulongMax stream).2.flatten.length) ::
        session n (receive json ulongMax stream).2

end

/-- The content a round took from the bytes it received. -/
def content {V : Type} : Except String (Request V) → Option (List Char)
  | .ok (.parsed c _) => some c
  | _                 => none

/-! ### Well formed packets -/

/-- A packet: an optional request line, the fields, exactly one of them `Content-Length`, and a
body of that length. -/
structure Packet where
  request : Option RequestLine := none
  before : List Field := []
  contentLength : Field
  after : List Field := []
  body : List Char
  request_other : ∀ r ∈ request, ¬ icaseEqual r.method ContentLength
  before_other : ∀ f ∈ before, ¬ icaseEqual f.name ContentLength
  after_other : ∀ f ∈ after, ¬ icaseEqual f.name ContentLength
  name_eq : icaseEqual contentLength.name ContentLength
  digits_ne : contentLength.value ≠ []
  digits : contentLength.value.all isdigit
  value_eq : decimal contentLength.value = body.length

namespace Packet

def lines (p : Packet) : List (List Char) :=
  (p.request.map RequestLine.line).toList ++ p.before.map Field.line ++
    p.contentLength.line :: p.after.map Field.line

def headers (p : Packet) : List Char := writeHeaders p.lines

def bytes (p : Packet) : List Char := p.headers ++ p.body

theorem lines_ne_nil (p : Packet) : p.lines ≠ [] := by simp [lines]

theorem isLine_of_mem {p : Packet} {line : List Char} (h : line ∈ p.lines) : IsLine line := by
  rcases List.mem_append.1 h with h | h
  · rcases List.mem_append.1 h with h | h
    · obtain ⟨r, -, rfl⟩ : ∃ r, p.request = some r ∧ r.line = line := by simpa using h
      exact r.isLine
    · obtain ⟨f, -, rfl⟩ := List.mem_map.1 h
      exact f.isLine
  · rcases List.mem_cons.1 h with rfl | h
    · exact p.contentLength.isLine
    · obtain ⟨f, -, rfl⟩ := List.mem_map.1 h
      exact f.isLine

theorem getHeadersBuffer_eq (p : Packet) {rest buffer : List Char}
    (h : buffer <+: p.headers ++ rest) :
    getHeadersBuffer buffer = if p.headers.length ≤ buffer.length then p.headers else [] := by
  have hlines : ∀ x ∈ p.lines, IsLine x := fun _ => isLine_of_mem
  rw [headers] at h ⊢
  obtain ⟨line, lines, hp⟩ := List.exists_cons_of_ne_nil p.lines_ne_nil
  rw [hp] at h hlines ⊢
  have hline := hlines line List.mem_cons_self
  refine getHeadersBuffer_of_prefix hline.eol (fun x hx => ?_) h
  have hx := hlines x (List.mem_cons_of_mem line hx)
  exact ⟨hx.eol, hx.ne_nil⟩

/-- The walk over the headers of a packet finds its `Content-Length`. -/
theorem get_contentLength (p : Packet) :
    (HttpParser.mk p.headers).get ContentLength = p.contentLength.value := by
  have hstart : ∀ s ∈ p.request.map RequestLine.line, IsLine s ∧ Skipped ContentLength s := by
    intro s hs
    obtain ⟨r, hr, rfl⟩ := Option.map_eq_some_iff.1 hs
    exact ⟨r.isLine, r.skipped (by decide) (p.request_other r hr)⟩
  have hbefore : ∀ x ∈ p.before.map Field.line, IsLine x ∧ Passed ContentLength x := by
    intro x hx
    obtain ⟨f, hf, rfl⟩ := List.mem_map.1 hx
    exact ⟨f.isLine, Field.passed (p.before_other f hf)⟩
  have hfind := findHeader_lines (p.after.map Field.line) hstart hbefore
    p.contentLength.isLine (Field.matched p.name_eq)
  rw [HttpParser.get, headers, lines, hfind, Field.value_eq]

end Packet

/-! ### One round -/

/-- The read loop stops at the chunk that completes the headers. -/
theorem readHttpPacket_eq (p : Packet) {acc rest : List Char} {chunks : List Chunk}
    (h : acc ++ chunks.flatten = p.bytes ++ rest) (hacc : acc.length < p.headers.length) :
    ∃ before last after, chunks = before ++ last :: after ∧
      (acc ++ before.flatten).length < p.headers.length ∧
      p.headers.length ≤ (acc ++ (before ++ [last]).flatten).length ∧
      readHttpPacket acc chunks =
        (.ok ⟨acc ++ (before ++ [last]).flatten, ⟨p.headers⟩⟩, after) := by
  induction chunks generalizing acc with
  | nil =>
      have hlen := congrArg List.length h
      simp only [List.flatten_nil, List.append_nil, Packet.bytes, List.length_append] at hlen
      omega
  | cons chunk chunks ih =>
      rw [List.flatten_cons, ← List.append_assoc] at h
      have hpre : acc ++ chunk <+: p.headers ++ (p.body ++ rest) :=
        ⟨chunks.flatten, by rw [h, Packet.bytes, List.append_assoc]⟩
      rw [readHttpPacket, HttpParser.ofBuffer, p.getHeadersBuffer_eq hpre]
      by_cases hle : p.headers.length ≤ (acc ++ chunk).length
      · have hvalid : (HttpParser.mk p.headers).Valid := fun hnil => by
          have hnil : p.headers = [] := hnil
          simp [hnil] at hacc
        have hheader : (HttpParser.mk p.headers).hasHeader ContentLength := by
          rw [HttpParser.hasHeader, p.get_contentLength]
          exact p.digits_ne
        refine ⟨[], chunk, chunks, rfl, ?_, ?_, ?_⟩
        · simpa using hacc
        · simpa using hle
        · rw [if_pos hle, if_pos hvalid, if_pos hheader]
          simp
      · have hvalid : ¬ (HttpParser.mk []).Valid := fun hv => hv rfl
        obtain ⟨before, last, after, rfl, hlt, hge, heq⟩ := ih h (Nat.lt_of_not_le hle)
        refine ⟨chunk :: before, last, after, rfl, ?_, ?_, ?_⟩
        · simpa [Nat.add_assoc] using hlt
        · simpa [Nat.add_assoc] using hge
        · rw [if_neg hle, if_neg hvalid, heq]
          simp

theorem contentLength_eq (p : Packet) (ulongMax : Nat) :
    (HttpParser.mk p.headers).contentLength ulongMax =
      if ulongMax < p.body.length then .error .outOfRange else .ok p.body.length := by
  rw [HttpParser.contentLength, p.get_contentLength, if_neg p.digits_ne,
    stoul_digits p.digits_ne p.digits, p.value_eq]

/-- The content of a packet is its body, when its length is a number for `std::stoul` and all of
it was read. -/
theorem content_parse {V : Type} (json : Json V) (ulongMax : Nat) (p : Packet)
    {buffer rest : List Char} (h : buffer <+: p.bytes ++ rest) :
    content (.ok (parseDapRequestToDictionary json ulongMax ⟨buffer, ⟨p.headers⟩⟩)) =
      if p.body.length ≤ ulongMax ∧ p.bytes.length ≤ buffer.length then some p.body
      else none := by
  rw [parseDapRequestToDictionary, contentLength_eq]
  dsimp only
  by_cases hmax : ulongMax < p.body.length
  · rw [if_pos hmax, if_neg fun hc => Nat.not_le_of_lt hmax hc.1]
    rfl
  · have hfit : p.headers.length + p.body.length ≤ buffer.length ↔
        p.bytes.length ≤ buffer.length := by
      rw [Packet.bytes, List.length_append]
    rw [if_neg hmax]
    by_cases hle : p.bytes.length ≤ buffer.length
    · have hpre := List.prefix_of_prefix_length_le (List.prefix_append _ _) h hle
      have hcontent : (buffer.drop p.headers.length).take p.body.length = p.body := by
        obtain ⟨extra, rfl⟩ := hpre
        rw [Packet.bytes, List.append_assoc, List.drop_left, List.take_left]
      rw [if_pos ⟨Nat.le_of_not_lt hmax, hle⟩]
      exact (congrArg content (congrArg Except.ok (if_pos (hfit.2 hle)))).trans
        (congrArg some hcontent)
    · rw [if_neg fun hc => hle hc.2]
      exact congrArg content (congrArg Except.ok (if_neg fun hc => hle (hfit.1 hc)))

/-! ### Sessions -/

/-- The rounds of a session give the bodies of the packets, each taken from the bytes received,
and what the first rounds received belongs to their packets. -/
structure Delivers {V : Type} (json : Json V) (ulongMax : Nat) (packets : List Packet)
    (chunks : List Chunk) : Prop where
  bodies : (session json ulongMax packets.length chunks).map (fun round => content round.1) =
    packets.map fun p => some p.body
  kept : ∀ k, (((session json ulongMax packets.length chunks).take k).map Prod.snd).sum ≤
    ((packets.take k).map fun p => p.bytes.length).sum

/-- Each packet is cut so that the chunk that completes its headers is its last one, and ends
where the packet ends. -/
def Aligned : List Packet → List Chunk → Prop
  | [], _                => True
  | p :: packets, chunks =>
      ∃ before last after, chunks = before ++ last :: after ∧
        (before ++ [last]).flatten = p.bytes ∧ before.flatten.length < p.headers.length ∧
        Aligned packets after

section

variable {V : Type} {json : Json V} {ulongMax : Nat} {p : Packet} {packets : List Packet}
  {before after : List Chunk} {last : Chunk}

theorem headers_length_pos (p : Packet) : 0 < p.headers.length := by
  simp only [Packet.headers, writeHeaders, EndOfLine, List.length_append, List.length_cons]
  omega

/-- A session is the round of its first packet and the session of the others. -/
theorem delivers_cons {rest : List Char}
    (hpre : (before ++ [last]).flatten <+: p.bytes ++ rest)
    (hread : readHttpPacket [] (before ++ last :: after) =
      (.ok ⟨(before ++ [last]).flatten, ⟨p.headers⟩⟩, after)) :
    Delivers json ulongMax (p :: packets) (before ++ last :: after) ↔
      p.body.length ≤ ulongMax ∧ (before ++ [last]).flatten = p.bytes ∧
        Delivers json ulongMax packets after := by
  have hreceived : (before ++ last :: after).flatten.length - after.flatten.length =
      (before ++ [last]).flatten.length := by
    simp only [List.flatten_append, List.flatten_cons, List.length_append, List.flatten_nil,
      List.length_nil]
    omega
  have hsession : session json ulongMax (p :: packets).length (before ++ last :: after) =
      (.ok (parseDapRequestToDictionary json ulongMax ⟨(before ++ [last]).flatten, ⟨p.headers⟩⟩),
        (before ++ [last]).flatten.length) :: session json ulongMax packets.length after := by
    rw [List.length_cons, session, receive, hread, hreceived]
    rfl
  have hcontent := content_parse json ulongMax p hpre
  constructor
  · rintro ⟨hbodies, hkept⟩
    rw [hsession] at hbodies hkept
    simp only [List.map_cons, List.cons.injEq, hcontent] at hbodies
    obtain ⟨hfirst, hrest⟩ := hbodies
    have hfit : p.body.length ≤ ulongMax ∧ p.bytes.length ≤ (before ++ [last]).flatten.length := by
      by_contra hno
      rw [if_neg hno] at hfirst
      cases hfirst
    have hle : (before ++ [last]).flatten.length ≤ p.bytes.length := by simpa using hkept 1
    have hlen := Nat.le_antisymm hle hfit.2
    have hbytes : (before ++ [last]).flatten = p.bytes :=
      (List.prefix_of_prefix_length_le hpre (List.prefix_append _ _) hle).eq_of_length hlen
    refine ⟨hfit.1, hbytes, hrest, fun k => ?_⟩
    have hk := hkept (k + 1)
    simp only [List.take_succ_cons, List.map_cons, List.sum_cons, hlen] at hk
    exact Nat.le_of_add_le_add_left hk
  · rintro ⟨hmax, hbytes, hbodies, hkept⟩
    have hlen := congrArg List.length hbytes
    refine ⟨?_, fun k => ?_⟩
    · rw [hsession, List.map_cons, List.map_cons, hbodies, hcontent,
        if_pos ⟨hmax, Nat.le_of_eq hlen.symm⟩]
    · cases k with
      | zero => exact Nat.le_refl 0
      | succ k =>
          rw [hsession]
          simp only [List.take_succ_cons, List.map_cons, List.sum_cons, hlen]
          exact Nat.add_le_add_left (hkept k) _

/-- The chunk that completes the headers is one and the same in every cut. -/
theorem split_unique {before' after' : List Chunk} {last' : Chunk} {n : Nat}
    (h : before ++ last :: after = before' ++ last' :: after')
    (hlt : before.flatten.length < n) (hge : n ≤ (before ++ [last]).flatten.length)
    (hlt' : before'.flatten.length < n) (hge' : n ≤ (before' ++ [last']).flatten.length) :
    before = before' ∧ last = last' ∧ after = after' := by
  have hno : ∀ {b b' a a' : List Chunk} {l l' : Chunk}, b ++ l :: a = b' ++ l' :: a' →
      n ≤ (b ++ [l]).flatten.length → b'.flatten.length < n → b'.length ≤ b.length := by
    intro b b' a a' l l' heq hn hn'
    by_contra hlen
    have hpre : b ++ [l] <+: b' := by
      have hb : b ++ [l] <+: b' ++ l' :: a' := heq ▸ ⟨a, by simp⟩
      refine List.prefix_of_prefix_length_le hb (List.prefix_append _ _) ?_
      rw [List.length_append]
      exact Nat.lt_of_not_le hlen
    obtain ⟨t, rfl⟩ := hpre
    rw [List.flatten_append, List.length_append] at hn'
    omega
  have hlen := Nat.le_antisymm (hno h.symm hge' hlt) (hno h hge hlt')
  obtain ⟨rfl, hcons⟩ := List.append_inj h hlen
  obtain ⟨rfl, rfl⟩ := List.cons.inj hcons
  exact ⟨rfl, rfl, rfl⟩

theorem aligned_cons (hlt : before.flatten.length < p.headers.length)
    (hge : p.headers.length ≤ (before ++ [last]).flatten.length) :
    Aligned (p :: packets) (before ++ last :: after) ↔
      (before ++ [last]).flatten = p.bytes ∧ Aligned packets after := by
  constructor
  · rintro ⟨before', last', after', heq, hbytes, hlt', haligned⟩
    have hge' : p.headers.length ≤ (before' ++ [last']).flatten.length := by
      rw [hbytes, Packet.bytes, List.length_append]
      exact Nat.le_add_right _ _
    obtain ⟨rfl, rfl, rfl⟩ := split_unique heq hlt hge hlt' hge'
    exact ⟨hbytes, haligned⟩
  · rintro ⟨hbytes, haligned⟩
    exact ⟨before, last, after, rfl, hbytes, hlt, haligned⟩

end

/-- A stream of packets is delivered exactly when the chunks are aligned with the packets and
each body has a length `std::stoul` can give. -/
theorem delivers_iff_aligned {V : Type} (json : Json V) (ulongMax : Nat) (packets : List Packet)
    (chunks : List Chunk) (h : chunks.flatten = packets.flatMap Packet.bytes) :
    Delivers json ulongMax packets chunks ↔
      Aligned packets chunks ∧ ∀ p ∈ packets, p.body.length ≤ ulongMax := by
  induction packets generalizing chunks with
  | nil =>
      refine ⟨fun _ => ⟨trivial, fun p hp => by cases hp⟩, fun _ => ⟨rfl, fun k => ?_⟩⟩
      simp [session]
  | cons p packets ih =>
      rw [List.flatMap_cons] at h
      obtain ⟨before, last, after, rfl, hlt, hge, hread⟩ :=
        readHttpPacket_eq p (show [] ++ _ = _ from h) (headers_length_pos p)
      have hsplit : (before ++ [last]).flatten ++ after.flatten =
          p.bytes ++ packets.flatMap Packet.bytes := by
        rw [← h, ← List.flatten_append, List.append_assoc, List.singleton_append]
      rw [delivers_cons ⟨after.flatten, hsplit⟩ hread, aligned_cons hlt hge]
      by_cases hbytes : (before ++ [last]).flatten = p.bytes
      · have hrest : after.flatten = packets.flatMap Packet.bytes := by
          rw [hbytes] at hsplit
          exact List.append_cancel_left hsplit
        rw [ih after hrest, List.forall_mem_cons]
        constructor
        · rintro ⟨hmax, -, haligned, hall⟩
          exact ⟨⟨hbytes, haligned⟩, hmax, hall⟩
        · rintro ⟨⟨-, haligned⟩, hmax, hall⟩
          exact ⟨hmax, hbytes, haligned, hall⟩
      · exact ⟨fun hc => absurd hc.2.1 hbytes, fun hc => absurd hc.1.1 hbytes⟩

/-- The packet `Content-Length: 2` with the body `{}`. -/
def brief : Packet where
  contentLength :=
    { name := ContentLength, value := ['2'], leading := 1
      name_ne := by decide, name_token := by simp [ContentLength], value_cr := by decide
      value_head := by decide, value_last := by decide }
  body := ['{', '}']
  request_other := by simp
  before_other := by simp
  after_other := by simp
  name_eq := rfl
  digits_ne := by decide
  digits := by decide
  value_eq := by decide

def anyJson : Json Unit := ⟨fun _ => .ok (), fun _ => true⟩

/-- Cut inside its headers the packet arrives. -/
theorem brief_delivered :
    Delivers anyJson 4294967295 [brief] [brief.headers.take 9, brief.bytes.drop 9] :=
  (delivers_iff_aligned anyJson 4294967295 [brief] [brief.headers.take 9, brief.bytes.drop 9]
    (by decide)).2
    ⟨⟨[brief.headers.take 9], brief.bytes.drop 9, [], rfl, by decide, by decide, trivial⟩,
      by decide⟩

/-- Cut between headers and body it does not, and neither do two packets in one chunk. -/
theorem brief_lost :
    ¬ Delivers anyJson 4294967295 [brief] [brief.headers, brief.body] ∧
      ¬ Delivers anyJson 4294967295 [brief, brief] [brief.bytes ++ brief.bytes] :=
  ⟨fun h => absurd h.bodies (by decide), fun h => absurd h.bodies (by decide)⟩

end MyEngine.Debug
