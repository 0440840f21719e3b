import AvianCore.Http.Writer

/-!
The framing of HTTP/2 (`HTTP2Frame.swift`): the header of a frame, and the checks of header fields, held against the
fields of HTTP/1.
-/

namespace AvianCore.Http
open List

structure H2FrameHeader where
  length : Nat
  type : UInt8
  flags : UInt8
  streamID : Nat

namespace H2FrameHeader

/-- Of at least nine bytes. The high bit of the stream's number is reserved, and ignored. -/
def parse (p : Bytes) : H2FrameHeader where
  length := (p.getD 0 0).toNat <<< 16 ||| (p.getD 1 0).toNat <<< 8 ||| (p.getD 2 0).toNat
  type := p.getD 3 0
  flags := p.getD 4 0
  streamID := (p.getD 5 0 &&& 0x7F).toNat <<< 24 ||| (p.getD 6 0).toNat <<< 16 ||| (p.getD 7 0).toNat <<< 8 |||
    (p.getD 8 0).toNat

def write (h : H2FrameHeader) : Bytes :=
  [UInt8.ofNat (h.length >>> 16), UInt8.ofNat (h.length >>> 8), UInt8.ofNat h.length, h.type, h.flags,
    UInt8.ofNat (h.streamID >>> 24) &&& 0x7F, UInt8.ofNat (h.streamID >>> 16), UInt8.ofNat (h.streamID >>> 8),
    UInt8.ofNat h.streamID]

theorem or_byte (a i : Nat) (b : UInt8) : a <<< (i + 8) ||| b.toNat <<< i = (a * 256 + b.toNat) <<< i := by
  rw [Nat.add_comm, Nat.shiftLeft_add, ← Nat.shiftLeft_or_distrib, ← Nat.shiftLeft_add_eq_or_of_lt b.toNat_lt,
    Nat.shiftLeft_eq a]

/-- A header is read back as it was written, but for what its length and its stream have no room for. -/
theorem header_read_back (h : H2FrameHeader) (rest : Bytes) : parse (h.write ++ rest) =
    { h with length := h.length % 2 ^ 24, streamID := h.streamID % 2 ^ 31 } := by
  have seven (n : Nat) : n &&& 127 = n % 128 := Nat.and_two_pow_sub_one_eq_mod n 7
  have last (a : Nat) (b : UInt8) : a <<< 8 ||| b.toNat = a * 256 + b.toNat := or_byte a 0 b
  simp only [parse, or_byte _ 16, or_byte _ 8, last]
  simp [write, seven, Nat.shiftRight_eq_div_pow]
  omega

end H2FrameHeader

namespace HTTP2

def isFieldNameChar (c : UInt8) : Bool :=
  if 0x41 ≤ c ∧ c ≤ 0x5A then false
  else if (0x30 ≤ c ∧ c ≤ 0x39) ∨ (0x61 ≤ c ∧ c ≤ 0x7A) then true
  else c = 0x21 ∨ (0x23 ≤ c ∧ c ≤ 0x27) ∨ c = 0x2A ∨ c = 0x2B ∨ c = 0x2D ∨ c = 0x2E ∨ c = 0x5E ∨ c = 0x5F ∨ c = 0x60 ∨
    c = 0x7C ∨ c = 0x7E

def validFieldName (p : Bytes) : Bool := if p.length = 0 then false else p.all isFieldNameChar

def validFieldValue (p : Bytes) : Bool :=
  if p.length = 0 then true
  else if p.getD 0 0 = 0x20 ∨ p.getD 0 0 = 0x09 then false
  else if p.getD (p.length - 1) 0 = 0x20 ∨ p.getD (p.length - 1) 0 = 0x09 then false
  else p.all fun c => ¬(c = 0x00 ∨ c = 0x0A ∨ c = 0x0D)

theorem isFieldNameChar_iff : ∀ c, isFieldNameChar c = true ↔ isTokenChar c = true ∧ asciiLower c = c := by
  decide +kernel

theorem validFieldName_iff (p : Bytes) :
    validFieldName p = true ↔ p ≠ [] ∧ ∀ c ∈ p, isTokenChar c = true ∧ asciiLower c = c := by
  simp [validFieldName, isFieldNameChar_iff]

theorem isBlank_iff (c : UInt8) : isBlank c = true ↔ c = 0x20 ∨ c = 0x09 := by
  rw [isBlank, Bool.or_eq_true, decide_eq_true_eq, decide_eq_true_eq]
  rfl

theorem trim_validFieldValue {p : Bytes} (valid : validFieldValue p = true) : trim p = p := by
  unfold validFieldValue at valid
  split_ifs at valid with empty first last
  · rw [eq_nil_of_length_eq_zero empty]
    rfl
  have front : p.dropWhile isBlank = p :=
    dropWhile_eq_self_iff.mpr fun long blank => first (by simpa [long] using (isBlank_iff _).mp blank)
  rw [trim, front, rdropWhile_eq_self_iff]
  intro filled blank
  exact last (by simpa [getLast_eq_getElem, length_pos_of_ne_nil filled] using (isBlank_iff _).mp blank)

/-- A control character that `validFieldValue` lets through. -/
def isLaxControl (c : UInt8) : Bool := (0x01 ≤ c ∧ c ≤ 0x08) ∨ c = 0x0B ∨ c = 0x0C ∨ (0x0E ≤ c ∧ c ≤ 0x1F) ∨ c = 0x7F

theorem isFieldValueChar_iff :
    ∀ c, ¬(c = 0x00 ∨ c = 0x0A ∨ c = 0x0D) → (isFieldValueChar c = true ↔ isLaxControl c = false) := by
  decide +kernel

theorem not_break_of_validFieldValue {p : Bytes} (valid : validFieldValue p = true) {c : UInt8} (member : c ∈ p) :
    ¬(c = 0x00 ∨ c = 0x0A ∨ c = 0x0D) := by
  unfold validFieldValue at valid
  split_ifs at valid with empty
  · rw [eq_nil_of_length_eq_zero empty] at member
    cases member
  · simpa using all_eq_true.mp valid c member

/-- Fields that pass here are written to HTTP/1 as lines with the same names and values, none of them split, joined or
changed, exactly if no value has one of the control characters that only HTTP/1 refuses. -/
theorem fields_as_lines {fields : List (Bytes × Bytes)}
    (valid : ∀ field ∈ fields, validFieldName field.1 = true ∧ validFieldValue field.2 = true) :
    (∃ lines : List Line, writeEach (fun buf field => HTTPResponseWriter.writeHeader buf field.1 field.2) [] fields =
        (true, linesBytes lines) ∧ (lines.map fun line => (line.name, line.value)) = fields) ↔
      ∀ field ∈ fields, ∀ c ∈ field.2, isLaxControl c = false := by
  simp only [writeEach_writeHeader, nil_append]
  constructor
  · rintro ⟨lines, ⟨writable, -⟩, -⟩ field member c inside
    rw [← isFieldValueChar_iff c (not_break_of_validFieldValue (valid field member).2 inside)]
    exact (writable field member).proper c inside
  · intro plain
    have writable : ∀ field ∈ fields, Writable field ∧ field.1 ≠ [] := by
      intro field member
      obtain ⟨named, token⟩ := (validFieldName_iff _).mp (valid field member).1
      refine ⟨⟨fun c inside => (token c inside).1, fun c inside => ?_⟩, named⟩
      rw [isFieldValueChar_iff c (not_break_of_validFieldValue (valid field member).2 inside)]
      exact plain field member c inside
    have kept : (fields.map fun field => (field.1, trim field.2)) = fields := by
      conv_rhs => rw [← map_id fields]
      refine map_congr_left fun field member => ?_
      rw [trim_validFieldValue (valid field member).2]
      rfl
    obtain ⟨lines, bytes, texts⟩ := exists_lines writable
    exact ⟨lines, ⟨fun field member => (writable field member).1, bytes⟩, texts.trans kept⟩

theorem fields_as_lines_te : ∃ lines : List Line,
    writeEach (fun buf field => HTTPResponseWriter.writeHeader buf field.1 field.2) []
        [(ascii "te", ascii "trailers"), (ascii "x-empty", []), (ascii "cookie", ascii "a=b; c=d")] =
      (true, linesBytes lines) ∧ (lines.map fun line => (line.name, line.value)) =
        [(ascii "te", ascii "trailers"), (ascii "x-empty", []), (ascii "cookie", ascii "a=b; c=d")] :=
  (fields_as_lines (by decide +kernel)).mpr (by decide +kernel)

-- a control character that only HTTP/1 refuses
example : validFieldValue [1] = true ∧ (HTTPResponseWriter.writeHeader [] (ascii "te") [1]).1 = false := by decide

end HTTP2
end AvianCore.Http
