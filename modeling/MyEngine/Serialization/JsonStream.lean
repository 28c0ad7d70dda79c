import MyEngine.Io.SourceStream
import MyEngine.Memory.BufferBytes
import MyEngine.Serialization.RuntimeValue

/-!
# Serialization — JsonStream

`jsonParse` of a stream, of `json_jsoncpp_parse.cpp`: the stream is read in blocks into a buffer
that grows with them.

* `readBlocks_eq`: the buffer has what is `taken` of the stream, as long as its size fits.
* `readBlocks_wrap`: behind that there is no `data()` to read the next block to.
* `jsonParse_iff`: the streams that are parsed as their bytes are.
-/

namespace MyEngine.Serialization

open Io (SourceStream)
open Memory Support

/-- `BlockSize`. -/
def jsonBlockSize : ℕ := 256

section Code
variable (junk : ℕ → Char)

/-- The loop of `jsonParse`. -/
def readBlocks (buffer : Buffer Char) (totalRead : ℕ) (reader : SourceStream Char) :
    Except BytesFault (Buffer Char) :=
  match buffer.append junk jsonBlockSize with
  | .error e           => .error e
  | .ok (buffer, ptr) =>
      match buffer.memcpyTo ptr (reader.read jsonBlockSize).1 with
      | .error e   => .error e
      | .ok buffer =>
          if _h : (reader.read jsonBlockSize).1.length < jsonBlockSize then
            buffer.resize junk (totalRead + (reader.read jsonBlockSize).1.length)
          else
            readBlocks buffer (totalRead + (reader.read jsonBlockSize).1.length)
              (reader.read jsonBlockSize).2
termination_by reader.bytes.length
decreasing_by
  have hlength := reader.length_add_length jsonBlockSize
  have hpos : 0 < jsonBlockSize := by decide
  omega

/-- `jsonParse`. -/
def jsonParse (lib : JsonCpp) (parse : Text → Except Text Json) (reader : SourceStream Char) :
    Except BytesFault (Outcome RuntimeValue) :=
  (readBlocks junk {} 0 reader).map fun buffer => jsonParseString lib parse buffer.contents

end Code

section Blocks
variable {junk : ℕ → Char} {buffer buffer' : Buffer Char} {reader : SourceStream Char} {n : ℕ}

/-- The capacity is a number of 32 bits, and that of a buffer which need not grow for its size. -/
def Fits (buffer : Buffer Char) : Prop :=
  ∀ header ∈ buffer.storage, header.size ≤ header.capacity ∧ header.capacity < 2 ^ 32

theorem capacity_allocate (junk : ℕ → Char) (hn : n ≤ 2 ^ 32 - jsonBlockSize) :
    n ≤ (allocate junk n).capacity := by
  rw [jsonBlockSize] at hn
  simp only [allocate, storageSize, alignedSize, headerSize, bigAllocationThreshold,
    allocationGranularity, bigAllocationGranularity]
  by_cases hbig : n < 4096
  · simp only [hbig, if_true]
    omega
  · simp only [hbig, if_false]
    omega

theorem memcpyTo_capacity {offset : ℕ} {bytes : List Char} {header : Block Char}
    (h : Buffer.memcpyTo ⟨some header⟩ offset bytes = .ok buffer') :
    ∃ memory, buffer' = ⟨some { header with memory := memory }⟩ := by
  rw [Buffer.memcpyTo] at h
  split at h
  case h_1 => cases h
  case h_2 =>
    split at h
    case isTrue => exact ⟨header.memory, (Except.ok.inj h).symm⟩
    case isFalse => cases h
  case h_3 memory _ =>
    split at h
    case isTrue => exact ⟨_, (Except.ok.inj h).symm⟩
    case isFalse => cases h

theorem Fits.memcpyTo {offset : ℕ} {bytes : List Char} (hfits : Fits buffer)
    (h : buffer.memcpyTo offset bytes = .ok buffer') : Fits buffer' := by
  rcases buffer with ⟨_ | header⟩
  · simp only [Buffer.memcpyTo, Buffer.data] at h
    split at h
    case isTrue =>
      obtain rfl := Except.ok.inj h
      exact hfits
    case isFalse => cases h
  · obtain ⟨memory, rfl⟩ := memcpyTo_capacity h
    rintro _ ⟨⟩
    exact hfits header rfl

theorem fits_resize (hfits : Fits buffer) (hn : n ≤ 2 ^ 32 - jsonBlockSize)
    (h : buffer.resize junk n = .ok buffer') : Fits buffer' := by
  have hallocate : (allocate junk n).size ≤ (allocate junk n).capacity ∧
      (allocate junk n).capacity < 2 ^ 32 :=
    ⟨(Nat.mod_le n _).trans (capacity_allocate junk hn), Nat.mod_lt _ (by decide)⟩
  have hsize : n % 2 ^ 32 = n := by
    refine Nat.mod_eq_of_lt (lt_of_le_of_lt hn ?_)
    decide
  rcases buffer with ⟨_ | header⟩
  · obtain rfl := Except.ok.inj h
    rintro _ ⟨⟩
    exact hallocate
  · simp only [Buffer.resize, Buffer.reallocate] at h
    split at h
    case isTrue => cases h
    case isFalse =>
      split at h
      case isTrue hle =>
        obtain rfl := Except.ok.inj h
        rintro _ ⟨⟩
        exact ⟨hsize.le.trans hle, (hfits header rfl).2⟩
      case isFalse =>
        split at h
        case h_1 => cases h
        case h_2 =>
          obtain ⟨memory, rfl⟩ := memcpyTo_capacity h
          rintro _ ⟨⟩
          exact hallocate

theorem fits_append {count ptr : ℕ} (hfits : Fits buffer)
    (hn : buffer.size + count ≤ 2 ^ 32 - jsonBlockSize)
    (h : buffer.append junk count = .ok (buffer', ptr)) : Fits buffer' := by
  rw [Buffer.append] at h
  split at h
  case h_1 => cases h
  case h_2 hresize =>
    split at h
    case h_1 => cases h
    case h_2 =>
      obtain ⟨rfl, rfl⟩ := Prod.mk.inj (Except.ok.inj h)
      exact fits_resize hfits hn hresize

/-- A buffer of full blocks. -/
structure Blocks (buffer : Buffer Char) : Prop where
  sound : buffer.Sound
  fits : Fits buffer
  dvd : jsonBlockSize ∣ buffer.size

/-- The block that is read next is behind the others. -/
theorem append_memcpyTo (junk : ℕ → Char) {bytes : List Char} (h : Blocks buffer)
    (hlt : buffer.size < 2 ^ 32 - jsonBlockSize) (hle : bytes.length ≤ jsonBlockSize) :
    ∃ buffer' buffer'' tail, buffer.append junk jsonBlockSize = .ok (buffer', buffer.size) ∧
      buffer'.memcpyTo buffer.size bytes = .ok buffer'' ∧ Blocks buffer'' ∧
        buffer''.size = buffer.size + jsonBlockSize ∧ tail.length = jsonBlockSize ∧
          buffer''.contents = overwrite (buffer.contents ++ tail) buffer.size bytes := by
  have hnext : buffer.size + jsonBlockSize ≤ 2 ^ 32 - jsonBlockSize := by
    obtain ⟨k, hk⟩ := h.dvd
    rw [jsonBlockSize] at *
    omega
  have hsum : buffer.size + jsonBlockSize < 2 ^ 32 := lt_of_le_of_lt hnext (by decide)
  obtain ⟨buffer', tail, happend, hsound', hcontents', htail⟩ :=
    Buffer.append_spec junk h.sound hsum
  have hsize' : buffer'.size = buffer.size + jsonBlockSize := by
    rw [Buffer.append_size happend, Nat.mod_eq_of_lt hsum]
  have hroom : buffer.size + bytes.length ≤ buffer'.size :=
    hsize'.symm ▸ Nat.add_le_add_left hle _
  obtain ⟨buffer'', hto, hsound'', hcontents''⟩ := Buffer.memcpyTo_spec hsound' hroom
  have hsize'' : buffer''.size = buffer.size + jsonBlockSize :=
    (Buffer.memcpyTo_size hto).trans hsize'
  refine ⟨buffer', buffer'', tail, happend, hto, ⟨hsound'', ?_, ?_⟩, hsize'', htail,
    hcontents' ▸ hcontents''⟩
  · exact (fits_append h.fits hnext happend).memcpyTo hto
  · exact hsize''.symm ▸ Nat.dvd_add_self_right.2 h.dvd

/-- What is left of the loop, from a buffer of full blocks on. -/
theorem readBlocks_eq (junk : ℕ → Char) (h : Blocks buffer)
    (hroom : buffer.size + (reader.taken jsonBlockSize).length < 2 ^ 32 - jsonBlockSize) :
    ∃ buffer', readBlocks junk buffer buffer.size reader = .ok buffer' ∧
      buffer'.contents = buffer.contents ++ reader.taken jsonBlockSize := by
  induction reader using MyEngine.Io.SourceStream.taken.induct jsonBlockSize
    generalizing buffer with
  | case1 reader hfull ih =>
      have hread : (reader.read jsonBlockSize).1.length = jsonBlockSize :=
        le_antisymm (reader.length_read_le jsonBlockSize) hfull.2
      rw [SourceStream.taken_of_full hfull.1 hfull.2, List.length_append, hread] at hroom
      obtain ⟨buffer', buffer'', tail, happend, hto, hblocks, hsize, htail, hcontents⟩ :=
        append_memcpyTo junk h ((Nat.le_add_right _ _).trans_lt hroom) hread.le
      rw [← Buffer.length_contents h.sound] at hcontents
      rw [overwrite_append le_rfl (by rw [htail, hread]), overwrite_length] at hcontents
      obtain ⟨result, hloop, hresult⟩ := ih hblocks (by omega)
      refine ⟨result, ?_, ?_⟩
      · rw [readBlocks, happend]
        simp only [hto, hread, Nat.lt_irrefl, dite_false]
        rw [← hsize]
        exact hloop
      · rw [hresult, hcontents, SourceStream.taken_of_full hfull.1 hfull.2, List.append_assoc]
  | case2 reader hshort =>
      have hlt : (reader.read jsonBlockSize).1.length < jsonBlockSize :=
        Nat.lt_of_not_le fun hle => hshort ⟨by decide, hle⟩
      rw [SourceStream.taken_of_short hlt] at hroom ⊢
      obtain ⟨buffer', buffer'', tail, happend, hto, hblocks, hsize, htail, hcontents⟩ :=
        append_memcpyTo junk h ((Nat.le_add_right _ _).trans_lt hroom) hlt.le
      have hn : buffer.size + (reader.read jsonBlockSize).1.length < 2 ^ 32 :=
        hroom.trans_le (Nat.sub_le _ _)
      have hcapacity : ∀ header ∈ buffer''.storage,
          buffer.size + (reader.read jsonBlockSize).1.length ≤ header.capacity ∨
            header.size ≤ (allocate junk
              (buffer.size + (reader.read jsonBlockSize).1.length)).memory.length := by
        intro header hheader
        have hle := (hblocks.fits header hheader).1
        have hstorage : buffer''.size = header.size := by rw [Buffer.size, hheader]; rfl
        exact .inl (by omega)
      obtain ⟨result, rest, hresize, hsound, hsize', hresult⟩ :=
        Buffer.resize_spec junk hblocks.sound hn hcapacity
      have hlength := Buffer.length_contents h.sound
      have htake : buffer''.contents.take
          (buffer.size + (reader.read jsonBlockSize).1.length) =
            buffer.contents ++ (reader.read jsonBlockSize).1 := by
        rw [hcontents, ← hlength, take_overwrite_end (by simp), List.take_left]
      refine ⟨result, ?_, ?_⟩
      · rw [readBlocks, happend]
        simp only [hto, hlt, dite_true]
        exact hresize
      · rw [hresult, htake]
        refine List.append_right_eq_self.2 (List.eq_nil_of_length_eq_zero ?_)
        have hall := Buffer.length_contents hsound
        rw [hresult, htake, hsize', List.length_append, List.length_append, hlength] at hall
        omega

theorem data_of_size_eq_zero {header : Block Char} (h : header.size = 0) :
    Buffer.data ⟨some header⟩ = .ok none := by
  simp [Buffer.data, h]

/-- The buffer that the last block before 2 ^ 32 bytes needs has the size 0. -/
theorem append_wrap (junk : ℕ → Char) (h : Blocks buffer)
    (hsize : buffer.size = 2 ^ 32 - jsonBlockSize) :
    ∃ e, buffer.append junk jsonBlockSize = .error e := by
  rcases buffer with ⟨_ | header⟩
  · cases hsize
  · have hheader : header.size = 2 ^ 32 - jsonBlockSize := hsize
    have hsum : Buffer.size ⟨some header⟩ + jsonBlockSize = 2 ^ 32 := by
      rw [hsize]
      rfl
    obtain ⟨hle, hlt⟩ := h.fits header rfl
    have hpos : 0 < header.size := by
      rw [hheader]
      decide
    have hcapacity : header.capacity ≠ 0 := by omega
    have hlength : (Buffer.contents ⟨some header⟩).length = header.size :=
      Buffer.length_contents h.sound
    have hfrom := Buffer.memcpyFrom_spec h.sound (Nat.zero_add header.size).le
    have hne : Buffer.contents ⟨some header⟩ ≠ [] := List.ne_nil_of_length_pos (hlength ▸ hpos)
    rw [List.drop_zero, List.take_of_length_le hlength.le] at hfrom
    have hnew : (allocate junk (2 ^ 32)).size = 0 := rfl
    have hdata := data_of_size_eq_zero hnew
    refine ⟨.badAccess, ?_⟩
    rw [Buffer.append, hsum, Buffer.resize]
    simp only [Buffer.reallocate, hcapacity, if_false, if_neg (Nat.not_le_of_lt hlt), hfrom,
      Buffer.memcpyTo, hdata, if_neg hne]

theorem Blocks.size_le (h : Blocks buffer) : buffer.size ≤ 2 ^ 32 - jsonBlockSize := by
  have hlt : buffer.size < 2 ^ 32 := by
    rcases buffer with ⟨_ | header⟩
    · exact Nat.two_pow_pos 32
    · exact (h.sound header rfl).size_lt
  obtain ⟨k, hk⟩ := h.dvd
  rw [jsonBlockSize] at *
  omega

theorem readBlocks_wrap (junk : ℕ → Char) (h : Blocks buffer) (totalRead : ℕ)
    (hsize : 2 ^ 32 - jsonBlockSize ≤ buffer.size + (reader.taken jsonBlockSize).length) :
    ∃ e, readBlocks junk buffer totalRead reader = .error e := by
  induction reader using MyEngine.Io.SourceStream.taken.induct jsonBlockSize
    generalizing buffer totalRead with
  | case1 reader hfull ih =>
      rcases h.size_le.lt_or_eq with hlt | heq
      · have hread : (reader.read jsonBlockSize).1.length = jsonBlockSize :=
          le_antisymm (reader.length_read_le jsonBlockSize) hfull.2
        rw [SourceStream.taken_of_full hfull.1 hfull.2, List.length_append, hread] at hsize
        obtain ⟨buffer', buffer'', tail, happend, hto, hblocks, hsize', -⟩ :=
          append_memcpyTo junk h hlt hread.le
        obtain ⟨e, hloop⟩ := ih hblocks (totalRead + jsonBlockSize) (by omega)
        refine ⟨e, ?_⟩
        rw [readBlocks, happend]
        simp only [hto, hread, Nat.lt_irrefl, dite_false]
        exact hloop
      · obtain ⟨e, happend⟩ := append_wrap junk h heq
        exact ⟨e, by rw [readBlocks, happend]⟩
  | case2 reader hshort =>
      rcases h.size_le.lt_or_eq with hlt | heq
      · have hread : (reader.read jsonBlockSize).1.length < jsonBlockSize :=
          Nat.lt_of_not_le fun hle => hshort ⟨by decide, hle⟩
        rw [SourceStream.taken_of_short hread] at hsize
        obtain ⟨k, hk⟩ := h.dvd
        rw [jsonBlockSize] at *
        omega
      · obtain ⟨e, happend⟩ := append_wrap junk h heq
        exact ⟨e, by rw [readBlocks, happend]⟩

end Blocks

section Parse
variable {junk : ℕ → Char} {lib : JsonCpp} {parse : Text → Except Text Json}
  {reader : SourceStream Char}

theorem blocks_empty : Blocks {} := ⟨nofun, nofun, 0, rfl⟩

/-- It is what is `taken` of the stream that is parsed. -/
theorem jsonParse_eq (junk : ℕ → Char) (lib : JsonCpp) (parse : Text → Except Text Json)
    (hlt : (reader.taken jsonBlockSize).length < 2 ^ 32 - jsonBlockSize) :
    jsonParse junk lib parse reader =
      .ok (jsonParseString lib parse (reader.taken jsonBlockSize)) := by
  obtain ⟨buffer, hread, hcontents⟩ :=
    readBlocks_eq junk blocks_empty ((Nat.zero_add _).trans_lt hlt)
  have hread' : readBlocks junk {} 0 reader = .ok buffer := hread
  have hcontents' : buffer.contents = reader.taken jsonBlockSize := hcontents
  rw [jsonParse, hread', ← hcontents']
  rfl

/-- A stream is parsed as its bytes are just when what is `taken` of it fits into a buffer and means
the same; where no read before the end is short, that is all of the stream. -/
theorem jsonParse_iff :
    jsonParse junk lib parse reader = .ok (jsonParseString lib parse reader.bytes) ↔
      (reader.taken jsonBlockSize).length < 2 ^ 32 - jsonBlockSize ∧
        (reader.FullReads jsonBlockSize ∨ ¬ reader.FullReads jsonBlockSize ∧
          jsonParseString lib parse (reader.taken jsonBlockSize) =
            jsonParseString lib parse reader.bytes) := by
  have htaken := SourceStream.taken_eq_iff (show 0 < jsonBlockSize by decide) reader
  rcases Nat.lt_or_ge (reader.taken jsonBlockSize).length (2 ^ 32 - jsonBlockSize) with hlt | hge
  · rw [jsonParse_eq junk lib parse hlt, Except.ok.injEq, and_iff_right hlt]
    constructor
    · intro heq
      by_cases hfull : reader.FullReads jsonBlockSize
      · exact .inl hfull
      · exact .inr ⟨hfull, heq⟩
    · rintro (hfull | ⟨-, heq⟩)
      · rw [htaken.2 hfull]
      · exact heq
  · obtain ⟨e, hread⟩ := readBlocks_wrap junk blocks_empty 0 (hge.trans (Nat.zero_add _).symm.le)
    refine iff_of_false ?_ fun h => Nat.not_le_of_lt h.1 hge
    rw [jsonParse, hread]
    nofun

end Parse

/-- The text of an empty array is read in two pieces. -/
def twoReads : SourceStream Char := ⟨"[]".toList, fun _ => 1, fun _ => Nat.one_pos⟩

/-- The parser of the library, on the texts of the example. -/
def parseArray (str : Text) : Except Text Json :=
  if str = "[]".toList then .ok (.array [])
  else .error "Missing ',' or ']' in array declaration".toList

theorem not_parsed : ¬ ∀ (junk : ℕ → Char) (reader : SourceStream Char),
    jsonParse junk .standard parseArray reader =
      .ok (jsonParseString .standard parseArray reader.bytes) := by
  intro h
  have hparse := h (fun _ => 'x') twoReads
  have hshort : twoReads.taken jsonBlockSize = ['['] :=
    SourceStream.taken_of_short (by decide)
  rw [jsonParse_eq _ _ _ (by rw [hshort]; decide), hshort] at hparse
  cases Except.ok.inj hparse

end MyEngine.Serialization
