import AvianCore.Http.Writer

/-!
Requests as the client writes them, read back by the parser of the server. They come back as they were
written unless some field has no name, which the writer lets through.
-/

namespace AvianCore.Http
open HTTPParser (parse)
open List

/-- A method that the client has a name for, or its bytes. -/
inductive MethodName
  | known (method : Method)
  | text (bytes : Bytes)

/-- How the body is framed. -/
inductive RequestBody
  | none
  | length (n : Nat) (fits : n < 2 ^ 63)
  | chunked

/-- What the calls for one head are given. -/
structure RequestParts where
  method : MethodName
  target : Bytes
  authority : Bytes
  headers : List (Bytes × Bytes)
  body : RequestBody
  connection : Option Bool

namespace RequestParts
open HTTPRequestWriter
variable (parts : RequestParts)

def writeLine (buf : Bytes) : Bool × Bytes :=
  match parts.method with
  | .known method => writeKnownRequestLine buf method parts.target
  | .text method => writeRequestLine buf method parts.target

def writeHeaders (buf : Bytes) : Bool × Bytes :=
  writeEach (fun buf header => writeUserHeader buf header.1 header.2) buf parts.headers

def writeBody (buf : Bytes) : Bytes :=
  match parts.body with
  | .none => buf
  | .length n _ => writeContentLength buf n
  | .chunked => writeChunkedEncoding buf

def writeLast (buf : Bytes) : Bytes :=
  match parts.connection with
  | none => endHead buf
  | some keepAlive => endHead (writeConnection buf keepAlive)

def write (buf : Bytes) : Bool × Bytes :=
  andThen (andThen (andThen (parts.writeLine buf) fun buf => writeHost buf parts.authority)
    parts.writeHeaders) fun buf => (true, parts.writeLast (parts.writeBody buf))

def methodText : Bytes :=
  match parts.method with
  | .known method => method.token.getD []
  | .text method => method

def methodKind : Method :=
  match parts.method with
  | .known method => method
  | .text method => classifyMethod method

def bodyFields : List (Bytes × Bytes) :=
  match parts.body with
  | .none => []
  | .length n _ => [(ascii "Content-Length", writeDecimal n)]
  | .chunked => [(ascii "Transfer-Encoding", ascii "chunked")]

def connectionFields : List (Bytes × Bytes) :=
  match parts.connection with
  | none => []
  | some keepAlive => [(ascii "Connection", ascii (if keepAlive then "keep-alive" else "close"))]

def fields : List (Bytes × Bytes) :=
  (ascii "Host", parts.authority) :: (parts.headers ++ (parts.bodyFields ++ parts.connectionFields))

/-- The framing that a head was given. -/
structure Framed (head : RequestHead) : Prop where
  chunked : head.flags.chunked = true ↔ parts.body = .chunked
  hasLength : head.flags.hasContentLength = true ↔ ∃ n fits, parts.body = .length n fits
  length : head.contentLength =
    match parts.body with
    | .none => 0
    | .length n _ => (n : Int)
    | .chunked => -1
  keepAlive : head.flags.keepAlive = parts.connection.getD true

/-- The parser gets what was written, all of it and nothing else. -/
structure ReadBack (out : Bytes) (head : RequestHead) (headers : List HeaderRef) : Prop where
  all : head.headEnd = out.length
  method : head.method = parts.methodKind
  methodText : head.methodSlice.text out = parts.methodText
  target : head.target.text out = parts.target
  count : head.headerCount = parts.fields.length
  fields : (headers.map fun ref => (ref.name.text out, ref.value.text out)) =
    parts.fields.map fun field => (field.1, trim field.2)
  framed : parts.Framed head

end RequestParts

section Calls
open HTTPRequestWriter
variable {buf out : Bytes}

theorem writeRequestLine_cases (buf method target : Bytes) : writeRequestLine buf method target = (false, buf) ∨
    (method ≠ [] ∧ (∀ c ∈ method, isTokenChar c = true) ∧ target ≠ [] ∧
      (∀ c ∈ target, isRequestTargetChar c = true) ∧ writeRequestLine buf method target =
        (true, buf ++ (method ++ cSP :: (target ++ ascii " HTTP/1.1\r\n")))) := by
  unfold writeRequestLine
  by_cases empty : method = [] ∨ target = []
  · exact .inl (if_pos empty)
  rw [if_neg empty]
  by_cases token : method.all isTokenChar = false
  · exact .inl (if_pos token)
  rw [if_neg token]
  by_cases visible : target.all isRequestTargetChar = false
  · exact .inl (if_pos visible)
  rw [if_neg visible]
  rw [Bool.not_eq_false, all_eq_true] at token visible
  rw [not_or] at empty
  exact .inr ⟨empty.1, token, empty.2, visible, rfl⟩

theorem writeHost_cases (buf authority : Bytes) : writeHost buf authority = (false, buf) ∨
    (authority ≠ [] ∧ (∀ c ∈ authority, isRequestTargetChar c = true) ∧ writeHost buf authority =
      (true, buf ++ headerBytes (ascii "Host", authority))) := by
  unfold writeHost
  by_cases empty : authority = []
  · exact .inl (if_pos empty)
  rw [if_neg empty]
  by_cases visible : authority.all isRequestTargetChar = false
  · exact .inl (if_pos visible)
  rw [if_neg visible]
  rw [Bool.not_eq_false, all_eq_true] at visible
  exact .inr ⟨empty, visible, rfl⟩

theorem classify_managed {name : Bytes} {literal : String}
    (member : literal ∈ ["host", "connection", "content-length", "transfer-encoding"])
    (named : equalsLowercased name (ascii literal) = true) :
    (classify name).isDisjoint .managed = false := by
  have length : name.length = (ascii literal).length := by
    rw [equalsLowercased, decide_eq_true_eq] at named
    rw [← named, length_map]
  unfold classify
  fin_cases member
  · rw [length]
    simp only [named, show (ascii "host").length = 4 by decide, if_true]
    decide
  · rw [length]
    simp only [named, show (ascii "connection").length = 10 by decide, if_true]
    decide
  · rw [length]
    simp only [named, show (ascii "content-length").length = 14 by decide, if_true]
    decide
  · rw [length]
    simp only [named, show (ascii "transfer-encoding").length = 17 by decide, if_true]
    decide

/-- A field that the client may give. -/
structure Given (header : Bytes × Bytes) : Prop extends Writable header where
  free : ∀ literal ∈ ["host", "connection", "content-length", "transfer-encoding"],
    equalsLowercased header.1 (ascii literal) = false

theorem writeUserHeader_cases (buf : Bytes) (header : Bytes × Bytes) :
    writeUserHeader buf header.1 header.2 = (false, buf) ∨
      (Given header ∧ writeUserHeader buf header.1 header.2 = (true, buf ++ headerBytes header)) := by
  unfold writeUserHeader
  by_cases managed : (classify header.1).isDisjoint .managed = false
  · exact .inl (if_pos managed)
  rw [if_neg managed]
  rcases HTTPResponseWriter.writeHeader_eq buf header.1 header.2 with ⟨writable, written⟩ | ⟨-, refused⟩
  · right
    refine ⟨⟨writable, fun literal member => ?_⟩, written⟩
    by_contra named
    rw [Bool.not_eq_false] at named
    exact managed (classify_managed member named)
  · exact .inl refused

variable {parts : RequestParts}

theorem RequestParts.writeLine_true (written : parts.writeLine buf = (true, out)) :
    parts.methodText ≠ [] ∧ (∀ c ∈ parts.methodText, isTokenChar c = true) ∧ parts.target ≠ [] ∧
      (∀ c ∈ parts.target, isRequestTargetChar c = true) ∧ parts.methodKind = classifyMethod parts.methodText ∧
      out = buf ++ (parts.methodText ++ cSP :: (parts.target ++ ascii " HTTP/1.1\r\n")) := by
  -- both forms of the call end in the one that takes bytes
  have line : parts.methodKind = classifyMethod parts.methodText ∧
      writeRequestLine buf parts.methodText parts.target = (true, out) := by
    unfold writeLine at written
    unfold methodKind methodText
    cases named : parts.method with
    | text bytes =>
      rw [named] at written
      exact ⟨rfl, written⟩
    | known method =>
      rw [named] at written
      dsimp only [writeKnownRequestLine] at written ⊢
      cases token : method.token with
      | none =>
        rw [token] at written
        cases written
      | some bytes =>
        rw [token] at written
        exact ⟨(Method.classifyMethod_token token).symm, written⟩
  obtain ⟨kind, line⟩ := line
  rcases writeRequestLine_cases buf parts.methodText parts.target with refused | ⟨some, token, aimed, visible, done⟩
  · cases refused.symm.trans line
  cases done.symm.trans line
  exact ⟨some, token, aimed, visible, kind, rfl⟩

theorem RequestParts.writeLast_writeBody (buf : Bytes) : parts.writeLast (parts.writeBody buf) =
    buf ++ ((parts.bodyFields ++ parts.connectionFields).flatMap headerBytes ++ crlf) := by
  have length : ∀ n, headerBytes (ascii "Content-Length", writeDecimal n) =
      ascii "Content-Length: " ++ (writeDecimal n ++ crlf) := fun _ => rfl
  have coding : headerBytes (ascii "Transfer-Encoding", ascii "chunked") =
      ascii "Transfer-Encoding: chunked\r\n" := by decide
  have keep : headerBytes (ascii "Connection", ascii "keep-alive") =
      ascii "Connection: keep-alive\r\n" := by decide
  have close : headerBytes (ascii "Connection", ascii "close") = ascii "Connection: close\r\n" := by decide
  have body : parts.writeBody buf = buf ++ parts.bodyFields.flatMap headerBytes := by
    unfold writeBody bodyFields
    cases parts.body with
    | none => exact (append_nil _).symm
    | length n fits => simp [writeContentLength, length]
    | chunked => simp [writeChunkedEncoding, coding]
  rw [body, flatMap_append]
  unfold writeLast connectionFields
  cases parts.connection with
  | none => simp [endHead]
  | some keepAlive =>
    cases keepAlive with
    | true => simp [endHead, writeConnection, keep]
    | false => simp [endHead, writeConnection, close]

/-- What a head that is written consists of. -/
structure RequestParts.Written (parts : RequestParts) (out : Bytes) : Prop where
  named : parts.methodText ≠ []
  token : ∀ c ∈ parts.methodText, isTokenChar c = true
  kind : parts.methodKind = classifyMethod parts.methodText
  aimed : parts.target ≠ []
  visible : ∀ c ∈ parts.target, isRequestTargetChar c = true
  hosted : ∀ c ∈ parts.authority, isRequestTargetChar c = true
  given : ∀ header ∈ parts.headers, Given header
  bytes : out = parts.methodText ++ cSP :: (parts.target ++ ascii " HTTP/1.1\r\n") ++
    (parts.fields.flatMap headerBytes ++ crlf)

theorem RequestParts.written (done : parts.write [] = (true, out)) : parts.Written out := by
  obtain ⟨third, done, last⟩ := andThen_true done
  obtain ⟨second, done, headers⟩ := andThen_true done
  obtain ⟨first, line, host⟩ := andThen_true done
  obtain ⟨named, token, aimed, visible, kind, rfl⟩ := writeLine_true line
  obtain ⟨given, rfl⟩ := writeEach_true writeUserHeader_cases headers
  rcases writeHost_cases ([] ++ (parts.methodText ++ cSP :: (parts.target ++ ascii " HTTP/1.1\r\n")))
    parts.authority with refused | ⟨-, hosted, done⟩
  · cases refused.symm.trans host
  · cases done.symm.trans host
    rw [Prod.mk.injEq, writeLast_writeBody] at last
    refine ⟨named, token, kind, aimed, visible, hosted, given, ?_⟩
    rw [← last.2, fields, flatMap_cons, flatMap_append]
    simp

end Calls

theorem decimalDigit_digit {d : Nat} (less : d < 10) :
    isDigit (decimalDigit d) = true ∧ (decimalDigit d - cZero).toNat = d := by
  interval_cases d <;> decide

theorem writeDecimal_eq (v : Nat) : ∃ digits : List Nat, writeDecimal v = digits.map decimalDigit ∧
    (∀ d ∈ digits, d < 10) ∧ 1 ≤ digits.length ∧ (v < 10 ^ 19 → digits.length ≤ 19) ∧
    (v < 10 ^ 20 → digits.foldl (fun v d => v * 10 + d) 0 = v) := by
  unfold writeDecimal
  by_cases zero : v = 0
  · rw [if_pos zero]
    subst zero
    exact ⟨[0], rfl, by decide, le_refl _, fun _ => by decide, fun _ => rfl⟩
  rw [if_neg zero]
  refine ⟨(lowDigits 10 20 v).reverse, map_reverse.symm, ?_, ?_, ?_, ?_⟩
  · intro d member
    exact lowDigits_lt (by decide) 20 v d (mem_reverse.mp member)
  · rw [length_reverse]
    unfold lowDigits
    rw [if_pos (Nat.pos_of_ne_zero zero)]
    exact Nat.succ_pos _
  · intro fits
    rw [length_reverse]
    exact length_lowDigits_le fits
  · intro fits
    rw [foldl_reverse_digits, ofDigits_lowDigits fits]

theorem writeDecimal_digits (v : Nat) : ∀ c ∈ writeDecimal v, isDigit c = true := by
  obtain ⟨digits, same, small, -⟩ := writeDecimal_eq v
  intro c member
  rw [same, mem_map] at member
  obtain ⟨d, inside, rfl⟩ := member
  exact (decimalDigit_digit (small d inside)).1

theorem digitsFrom_map {digits : List Nat} (small : ∀ d ∈ digits, d < 10) (v : Nat) :
    digitsFrom v (digits.map decimalDigit) = digits.foldl (fun v d => v * 10 + d) v := by
  induction digits generalizing v with
  | nil => rfl
  | cons d rest ih =>
    rw [map_cons, digitsFrom_cons, (decimalDigit_digit (small d mem_cons_self)).2, foldl_cons]
    exact ih (fun other member => small other (mem_cons_of_mem _ member)) _

theorem decimalValue_writeDecimal {n : Nat} (fits : n < 10 ^ 20) : decimalValue (writeDecimal n) = n := by
  obtain ⟨digits, same, small, -, -, value⟩ := writeDecimal_eq n
  rw [decimalValue, same, digitsFrom_map small, value fits]

theorem parseDecimal_writeDecimal {n : Nat} (fits : n < 2 ^ 63) : parseDecimal (writeDecimal n) = n := by
  obtain ⟨digits, same, -, some, few, -⟩ := writeDecimal_eq n
  rw [parseDecimal_eq, decimalValue_writeDecimal (by omega), if_pos]
  refine ⟨⟨?_, ?_, writeDecimal_digits n⟩, fits⟩
  · rw [same, length_map]
    exact some
  · rw [same, length_map]
    exact few (by omega)

theorem trim_solid {p : Bytes} (solid : ∀ c ∈ p, isBlank c = false) : trim p = p := by
  have front : p.dropWhile isBlank = p := by
    cases p with
    | nil => rfl
    | cons c rest => exact dropWhile_cons_of_neg (by simp [solid c mem_cons_self])
  rw [trim, front]
  have nothing : ∀ c ∈ ([] : Bytes), isBlank c = true := fun c member => absurd member not_mem_nil
  have back := rdropWhile_append isBlank nothing (fun c last => solid c (mem_of_getLast? last))
  rwa [append_nil] at back

def frameText (seen : RequestFraming) (text : Bytes × Bytes) : Except ParseError RequestFraming :=
  frameRequest seen ⟨0, text.1, 0, text.2⟩

theorem foldlM_frameRequest (start : Nat) (lines : List Line) (seen : RequestFraming) :
    (located start lines).foldlM frameRequest seen =
      (lines.map fun line => (line.name, line.value)).foldlM frameText seen := by
  rw [← map_located start, foldlM_map]
  rfl

def SameFlags (flags flags' : RequestFlags) : Prop :=
  flags'.hasHost = flags.hasHost ∧ flags'.chunked = flags.chunked ∧
    flags'.hasContentLength = flags.hasContentLength ∧ flags'.keepAlive = flags.keepAlive

theorem frameText_given {header : Bytes × Bytes} (given : Given header) (value : Bytes)
    (seen : RequestFraming) : ∃ flags, frameText seen (header.1, value) = .ok { seen with flags := flags } ∧
      SameFlags seen.flags flags := by
  have host := given.free "host" (by simp)
  have connection := given.free "connection" (by simp)
  have length := given.free "content-length" (by simp)
  have coding := given.free "transfer-encoding" (by simp)
  unfold frameText frameRequest Field.isNamed
  dsimp only
  rw [host, connection, length, coding]
  split
  case isTrue none => cases none
  split
  · split
    · exact ⟨_, rfl, rfl, rfl, rfl, rfl⟩
    · exact ⟨seen.flags, rfl, rfl, rfl, rfl, rfl⟩
  split
  · exact ⟨_, rfl, rfl, rfl, rfl, rfl⟩
  · exact ⟨seen.flags, rfl, rfl, rfl, rfl, rfl⟩

theorem foldlM_given {headers : List (Bytes × Bytes)} (given : ∀ header ∈ headers, Given header)
    (rest : List (Bytes × Bytes)) (seen : RequestFraming) :
    ∃ flags, ((headers.map fun header => (header.1, trim header.2)) ++ rest).foldlM frameText seen =
        rest.foldlM frameText { seen with flags := flags } ∧ SameFlags seen.flags flags := by
  induction headers generalizing seen with
  | nil => exact ⟨seen.flags, rfl, rfl, rfl, rfl, rfl⟩
  | cons header others ih =>
    obtain ⟨flags, step, same⟩ := frameText_given (given header mem_cons_self) (trim header.2) seen
    obtain ⟨flags', run, same'⟩ := ih (fun other member => given other (mem_cons_of_mem _ member))
      { seen with flags := flags }
    refine ⟨flags', ?_, ?_⟩
    · rw [map_cons, cons_append, foldlM_cons, step]
      exact run
    · obtain ⟨host, chunked, length, keep⟩ := same
      obtain ⟨host', chunked', length', keep'⟩ := same'
      exact ⟨host'.trans host, chunked'.trans chunked, length'.trans length, keep'.trans keep⟩

namespace RequestParts
variable (parts : RequestParts)

def bodyFraming (seen : RequestFraming) : RequestFraming :=
  match parts.body with
  | .none => seen
  | .length n _ => { seen with sawContentLength := true, contentLength := n }
  | .chunked => { seen with sawTransferEncoding := true, chunked := true }

theorem foldlM_bodyFields {seen : RequestFraming} (unsized : seen.sawContentLength = false)
    (uncoded : seen.sawTransferEncoding = false) (rest : List (Bytes × Bytes)) :
    ((parts.bodyFields.map fun field => (field.1, trim field.2)) ++ rest).foldlM frameText seen =
      rest.foldlM frameText (parts.bodyFraming seen) := by
  unfold bodyFields bodyFraming
  cases parts.body with
  | none => rfl
  | length n fits =>
    have number : parseDecimal (trim (writeDecimal n)) = n := by
      rw [trim_solid, parseDecimal_writeDecimal fits]
      intro c member
      have sp := isDigit_ne (writeDecimal_digits n c member) (by decide : isDigit cSP = false)
      have ht := isDigit_ne (writeDecimal_digits n c member) (by decide : isDigit cHT = false)
      simp [isBlank, sp, ht]
    have step : frameText seen (ascii "Content-Length", trim (writeDecimal n)) =
        .ok { seen with sawContentLength := true, contentLength := n } := by
      show (if parseDecimal (trim (writeDecimal n)) < 0 then _ else
        if seen.sawContentLength = true ∧ seen.contentLength ≠ parseDecimal (trim (writeDecimal n)) then _
        else _) = _
      rw [number, if_neg (by omega), if_neg (by simp [unsized])]
    rw [map_cons, map_nil, cons_append, nil_append, foldlM_cons, step]
    rfl
  | chunked =>
    have step : frameText seen (ascii "Transfer-Encoding", trim (ascii "chunked")) =
        .ok { seen with sawTransferEncoding := true, chunked := true } := by
      show (if seen.sawTransferEncoding = true then _ else _) = _
      rw [if_neg (by simp [uncoded])]
      rfl
    rw [map_cons, map_nil, cons_append, nil_append, foldlM_cons, step]
    rfl

theorem foldlM_connectionFields (seen : RequestFraming) :
    (parts.connectionFields.map fun field => (field.1, trim field.2)).foldlM frameText seen =
      .ok { seen with keepAlive := parts.connection.getD seen.keepAlive } := by
  have step : ∀ value, frameText seen (ascii "Connection", value) =
      if containsTokenLowercased value (ascii "close") then .ok { seen with keepAlive := false }
      else if containsTokenLowercased value (ascii "keep-alive") then .ok { seen with keepAlive := true }
      else .ok seen := fun _ => rfl
  unfold connectionFields
  cases parts.connection with
  | none => rfl
  | some keepAlive =>
    rw [map_cons, map_nil, foldlM_cons, step]
    cases keepAlive with
    | true =>
      rw [if_neg (by decide), if_pos (by decide)]
      rfl
    | false =>
      rw [if_pos (by decide)]
      rfl

theorem foldlM_fields (given : ∀ header ∈ parts.headers, Given header) (start : RequestFraming)
    (unhosted : start.flags.hasHost = false) (unsized : start.sawContentLength = false)
    (uncoded : start.sawTransferEncoding = false) :
    ∃ flags, (parts.fields.map fun field => (field.1, trim field.2)).foldlM frameText start =
        .ok { parts.bodyFraming { start with flags := flags } with
          keepAlive := parts.connection.getD start.keepAlive } ∧
      SameFlags { start.flags with hasHost := true } flags := by
  have host : frameText start (ascii "Host", trim parts.authority) =
      .ok { start with flags := { start.flags with hasHost := true } } := by
    show (if start.flags.hasHost = true then _ else _) = _
    rw [if_neg (by simp [unhosted])]
  obtain ⟨flags, run, same⟩ := foldlM_given given
    ((parts.bodyFields ++ parts.connectionFields).map fun field => (field.1, trim field.2))
    { start with flags := { start.flags with hasHost := true } }
  refine ⟨flags, ?_, same⟩
  rw [fields, map_cons, foldlM_cons, host, map_append]
  refine run.trans ?_
  rw [map_append]
  refine (@foldlM_bodyFields parts { start with flags := flags } unsized uncoded _).trans ?_
  rw [parts.foldlM_connectionFields]
  congr 2
  unfold bodyFraming
  cases parts.body <;> rfl

end RequestParts

theorem text_of_fits {b before middle after : Bytes} (whole : b = before ++ (middle ++ after))
    (front : before.length < 2 ^ 32) (size : middle.length < 2 ^ 32) :
    (Slice.of before.length middle.length).text b = middle := by
  unfold Slice.text Slice.of
  rw [UInt32.toNat_ofNat', UInt32.toNat_ofNat', Nat.mod_eq_of_lt front, Nat.mod_eq_of_lt size, whole]
  exact take_drop_middle before middle after rfl

theorem text_of {b before middle after : Bytes} (whole : b = before ++ (middle ++ after))
    (size : b.length < 2 ^ 32) : (Slice.of before.length middle.length).text b = middle := by
  have total : b.length = before.length + (middle.length + after.length) := by rw [whole, length_append, length_append]
  exact text_of_fits whole (by omega) (by omega)

theorem isTargetByte_of {c : UInt8} (visible : isRequestTargetChar c = true) : isTargetByte c = true := by
  simp only [isRequestTargetChar, Bool.and_eq_true, decide_eq_true_eq] at visible
  simp only [isTargetByte, Bool.and_eq_true, decide_eq_true_eq, ne_eq]
  refine ⟨visible.1, ?_⟩
  rintro rfl
  exact absurd visible.2 (by decide)

theorem isFieldValueChar_of {c : UInt8} (low : 0x20 ≤ c) (high : c < 0x7F) : isFieldValueChar c = true := by
  unfold isFieldValueChar
  rw [if_pos low, decide_eq_true_eq]
  rintro rfl
  exact absurd high (by decide)

theorem RequestLine.head_words (line : RequestLine) : (line.head {} []).method = classifyMethod line.method ∧
    (line.head {} []).methodSlice = .of line.blanks.length line.method.length ∧ (line.head {} []).target =
      .of (line.blanks.length + line.method.length + 1) line.target.length := by
  have start : ([] : Bytes).length + line.blanks.length = line.blanks.length := Nat.zero_add _
  simp only [RequestLine.head, RequestHead.locate, start]
  split <;> split <;> exact ⟨rfl, rfl, rfl⟩

namespace RequestParts
variable {parts : RequestParts} {out : Bytes}

def Written.line (written : parts.Written out) : RequestLine where
  blanks := []
  method := parts.methodText
  target := parts.target
  breaks := fun _ member => absurd member List.not_mem_nil
  named := written.named
  token := written.token
  aimed := written.aimed
  visible := fun c member => isTargetByte_of (written.visible c member)
  minor := 49
  ending := crlf
  version := Or.inr rfl
  ended := isLineEnd_crlf

theorem Written.bytes_line (written : parts.Written out) : written.line.bytes =
    parts.methodText ++ cSP :: (parts.target ++ ascii " HTTP/1.1\r\n") := by
  have version : ascii " HTTP/1.1\r\n" = cSP :: (ascii "HTTP/1." ++ 49 :: crlf) := by decide
  rw [version]
  simp [RequestLine.bytes, RequestStart.front, Written.line]

theorem Written.writable (written : parts.Written out) (named : ∀ header ∈ parts.headers, header.1 ≠ []) :
    ∀ field ∈ parts.fields, Writable field ∧ field.1 ≠ [] := by
  have own : ∀ (name : String) (value : Bytes), (ascii name).all isTokenChar = true → ascii name ≠ [] →
      (∀ c ∈ value, isFieldValueChar c = true) →
      Writable (ascii name, value) ∧ (ascii name, value).1 ≠ [] := by
    intro name value token some proper
    exact ⟨⟨all_eq_true.mp token, proper⟩, some⟩
  intro field member
  rw [fields, mem_cons, mem_append, mem_append] at member
  rcases member with rfl | header | body | connection
  · apply own "Host" _ (by decide) (by decide)
    intro c inside
    have visible := written.hosted c inside
    simp only [isRequestTargetChar, Bool.and_eq_true, decide_eq_true_eq] at visible
    exact isFieldValueChar_of (UInt8.le_of_lt visible.1) visible.2
  · exact ⟨(written.given field header).toWritable, named field header⟩
  · unfold bodyFields at body
    cases kind : parts.body with
    | none =>
      rw [kind] at body
      cases body
    | length n fits =>
      rw [kind, mem_singleton] at body
      subst body
      apply own "Content-Length" _ (by decide) (by decide)
      intro c inside
      have digit := writeDecimal_digits n c inside
      rw [isDigit, Bool.and_eq_true, decide_eq_true_eq, decide_eq_true_eq] at digit
      exact isFieldValueChar_of (UInt8.le_trans (by decide : 0x20 ≤ cZero) digit.1)
        (UInt8.lt_of_le_of_lt digit.2 (by decide : cNine < 0x7F))
    | chunked =>
      rw [kind, mem_singleton] at body
      subst body
      exact own _ _ (by decide) (by decide) (all_eq_true.mp (by decide))
  · unfold connectionFields at connection
    cases kept : parts.connection with
    | none =>
      rw [kept] at connection
      cases connection
    | some keepAlive =>
      rw [kept, mem_singleton] at connection
      subst connection
      cases keepAlive with
      | true | false => exact own _ _ (by decide) (by decide) (all_eq_true.mp (by decide))

theorem bodyFraming_flags (seen : RequestFraming) : (parts.bodyFraming seen).flags = seen.flags := by
  unfold bodyFraming
  cases parts.body <;> rfl

theorem Written.read (written : parts.Written out) (named : ∀ header ∈ parts.headers, header.1 ≠ [])
    (small : out.length < 2 ^ 31) {maxHeadSize maxHeaders : Int} (sized : out.length ≤ maxHeadSize)
    (room : parts.fields.length ≤ maxHeaders) :
    ∃ head headers, parse out maxHeadSize maxHeaders {} = .complete head headers ∧ parts.ReadBack out head headers := by
  obtain ⟨lines, bytes, texts⟩ := exists_lines (written.writable named)
  obtain ⟨unhosted, unchunked, unsized, unkept⟩ := written.line.head_flags
  obtain ⟨flags, run, hosted, chunked, length, kept⟩ :=
    parts.foldlM_fields written.given (written.line.head {} []).framing unhosted rfl rfl
  have count : lines.length = parts.fields.length := by
    have same := congrArg List.length texts
    rwa [length_map, length_map] at same
  have whole : out = written.line.bytes ++ (linesBytes lines ++ (crlf ++ [])) := by
    rw [append_nil, bytes, written.bytes_line]
    exact written.bytes
  have total : out.length = written.line.bytes.length + ((linesBytes lines).length + 2) := by
    have same := congrArg List.length whole
    rwa [length_append, length_append, append_nil] at same
  set last : RequestFraming := { parts.bodyFraming { (written.line.head {} []).framing with flags := flags } with
      keepAlive := parts.connection.getD (written.line.head {} []).framing.keepAlive } with framing
  have lastFlags : last.flags = flags := parts.bodyFraming_flags _
  have accepted : AcceptedRequest maxHeadSize maxHeaders {} out written.line lines crlf [] last := by
    refine ⟨whole, Or.inl rfl, ?_, ⟨by omega, Room.of_le (by omega), ?_⟩, ?_, ?_⟩
    · have inside : parts.target.length ≤ out.length := by
        rw [written.bytes]
        simp only [length_append, length_cons]
        omega
      show (parts.target.length : Int) ≤ maxHeadSize
      omega
    · rw [foldlM_frameRequest, texts]
      exact run
    · rw [framing]
      unfold bodyFraming
      cases parts.body <;> rfl
    · rw [lastFlags, hosted]
      simp
  refine ⟨_, _, HTTPParser.parse_complete.mpr ⟨_, lines, crlf, [], last, accepted, rfl, rfl⟩, ?_⟩
  constructor
  · show (written.line.bytes ++ (linesBytes lines ++ crlf)).length = out.length
    rw [length_append, length_append, total]
    rfl
  · exact written.line.head_words.1.trans written.kind.symm
  · show (written.line.head {} []).methodSlice.text out = parts.methodText
    rw [written.line.head_words.2.1]
    have place : out = [] ++ (parts.methodText ++ (cSP :: (parts.target ++ ascii " HTTP/1.1\r\n") ++
        (parts.fields.flatMap headerBytes ++ crlf))) := by
      rw [nil_append, ← append_assoc]
      exact written.bytes
    exact text_of place (by omega)
  · show (written.line.head {} []).target.text out = parts.target
    rw [written.line.head_words.2.2]
    have start : written.line.blanks.length + written.line.method.length + 1 = (parts.methodText ++ [cSP]).length := by
      rw [length_append]
      exact congrArg (· + 1) (Nat.zero_add _)
    have place : out = (parts.methodText ++ [cSP]) ++ (parts.target ++ (ascii " HTTP/1.1\r\n" ++
        (parts.fields.flatMap headerBytes ++ crlf))) := written.bytes.trans (by simp)
    rw [start]
    exact text_of place (by omega)
  · exact count
  · rw [← texts, ← map_located written.line.bytes.length]
    exact (located_refs whole (by omega)).2
  · have bare : last.flags.chunked = false ∧ last.flags.hasContentLength = false ∧ last.flags.keepAlive = false := by
      rw [lastFlags]
      exact ⟨chunked.trans unchunked, length.trans unsized, kept.trans unkept⟩
    obtain ⟨bareChunked, bareLength, bareKeep⟩ := bare
    refine ⟨?_, ?_, ?_, ?_⟩
    · show (last.flags.chunked || last.chunked) = true ↔ _
      rw [bareChunked, Bool.false_or, framing]
      unfold bodyFraming
      cases parts.body <;> simp [RequestHead.framing]
    · show (last.flags.hasContentLength || last.sawContentLength) = true ↔ _
      rw [bareLength, Bool.false_or, framing]
      unfold bodyFraming
      cases parts.body with
      | none => simp [RequestHead.framing]
      | length n fits => exact iff_of_true rfl ⟨n, fits, rfl⟩
      | chunked => simp [RequestHead.framing]
    · show (if last.sawContentLength = true then last.contentLength else
        if last.chunked = true then -1 else 0) = _
      rw [framing]
      unfold bodyFraming
      cases parts.body <;> rfl
    · show (last.flags.keepAlive || last.keepAlive) = parts.connection.getD true
      have minor : (written.line.head {} []).httpMinor = 1 := by
        show (49 : UInt8) - 48 = 1
        decide
      have newest : (written.line.head {} []).framing.keepAlive = true := decide_eq_true minor
      rw [bareKeep, Bool.false_or, framing, ← newest]

theorem ReadBack.named {maxHeadSize maxHeaders : Int} {head : RequestHead} {headers : List HeaderRef}
    (read : parts.ReadBack out head headers)
    (complete : parse out maxHeadSize maxHeaders {} = .complete head headers)
    (small : out.length < 2 ^ 31) : ∀ header ∈ parts.headers, header.1 ≠ [] := by
  obtain ⟨line, lines, ending, rest, last, ⟨whole, -⟩, -, rfl⟩ := HTTPParser.parse_complete.mp complete
  have total : out.length = line.bytes.length + ((linesBytes lines).length + (ending.length + rest.length)) := by
    rw [whole]
    simp only [length_append]
  have texts := read.fields
  rw [(located_refs whole (by omega)).2, map_located] at texts
  intro header member
  have inside : (header.1, trim header.2) ∈ parts.fields.map fun field => (field.1, trim field.2) := by
    apply mem_map_of_mem (f := fun field : Bytes × Bytes => (field.1, trim field.2))
    rw [RequestParts.fields, mem_cons, mem_append]
    exact .inr (Or.inl member)
  rw [← texts, mem_map] at inside
  obtain ⟨line', -, same⟩ := inside
  rw [Prod.mk.injEq] at same
  rw [← same.1]
  exact line'.named

end RequestParts

def RefusalsWriteNothing : Prop :=
  ∀ buf : Bytes,
    (∀ method target, (HTTPRequestWriter.writeRequestLine buf method target).1 = false →
      (HTTPRequestWriter.writeRequestLine buf method target).2 = buf) ∧
    (∀ method target, (HTTPRequestWriter.writeKnownRequestLine buf method target).1 = false →
      (HTTPRequestWriter.writeKnownRequestLine buf method target).2 = buf) ∧
    (∀ authority, (HTTPRequestWriter.writeHost buf authority).1 = false →
      (HTTPRequestWriter.writeHost buf authority).2 = buf) ∧
    ∀ name value, (HTTPRequestWriter.writeUserHeader buf name value).1 = false →
      (HTTPRequestWriter.writeUserHeader buf name value).2 = buf

theorem refusalsWriteNothing : RefusalsWriteNothing := by
  intro buf
  have line : ∀ method target, (HTTPRequestWriter.writeRequestLine buf method target).1 = false →
      (HTTPRequestWriter.writeRequestLine buf method target).2 = buf := by
    intro method target refused
    rcases writeRequestLine_cases buf method target with same | ⟨-, -, -, -, written⟩
    · rw [same]
    · rw [written] at refused
      cases refused
  refine ⟨line, ?_, ?_, ?_⟩
  · intro method target refused
    unfold HTTPRequestWriter.writeKnownRequestLine at refused ⊢
    cases token : method.token with
    | none => rfl
    | some bytes =>
      rw [token] at refused
      exact line bytes target refused
  · intro authority refused
    rcases writeHost_cases buf authority with same | ⟨-, -, written⟩
    · rw [same]
    · rw [written] at refused
      cases refused
  · intro name value refused
    rcases writeUserHeader_cases buf (name, value) with same | ⟨-, written⟩
    · rw [same]
    · rw [written] at refused
      cases refused

/-- What the client writes comes back when every header has a name, and only then. -/
theorem request_read_back_iff (parts : RequestParts) (out : Bytes) (done : parts.write [] = (true, out))
    (small : out.length < 2 ^ 31) (maxHeadSize maxHeaders : Int) (sized : out.length ≤ maxHeadSize)
    (room : parts.fields.length ≤ maxHeaders) : RefusalsWriteNothing ∧
      ((∃ head headers, parse out maxHeadSize maxHeaders {} = .complete head headers ∧
        parts.ReadBack out head headers) ↔ ∀ header ∈ parts.headers, header.1 ≠ []) := by
  refine ⟨refusalsWriteNothing, ?_⟩
  constructor
  · rintro ⟨head, headers, complete, read⟩
    exact read.named complete small
  · intro named
    exact (RequestParts.written done).read named small sized room

def postedParts : RequestParts where
  method := .known .post
  target := ascii "/a"
  authority := ascii "b"
  headers := [(ascii "X-Id", ascii " 7 ")]
  body := .length 5 (by decide)
  connection := some false

theorem request_read_back_iff_posted : ∃ out head headers, postedParts.write [] = (true, out) ∧
      parse out 8192 100 {} = .complete head headers ∧
      postedParts.ReadBack out head headers := by
  obtain ⟨out, written⟩ : ∃ out, postedParts.write [] = (true, out) := ⟨_, rfl⟩
  have size : (postedParts.write []).2.length < 200 := by decide +kernel
  rw [written] at size
  change out.length < 200 at size
  have named : ∀ header ∈ postedParts.headers, header.1 ≠ [] := by decide
  have count : postedParts.fields.length = 4 := by decide
  obtain ⟨head, headers, read⟩ := (request_read_back_iff postedParts out written (by omega) 8192 100
    (by omega) (by rw [count]; decide)).2.mpr named
  exact ⟨out, head, headers, written, read⟩

def namelessParts : RequestParts where
  method := .known .get
  target := ascii "/"
  authority := ascii "a"
  headers := [([], ascii "x")]
  body := .none
  connection := none

/-- The writer takes the header and the parser refuses the request. -/
theorem nameless_header_refused : namelessParts.write [] = (true, ascii "GET / HTTP/1.1\r\nHost: a\r\n: x\r\n\r\n") ∧
      parse (ascii "GET / HTTP/1.1\r\nHost: a\r\n: x\r\n\r\n") 8192 100 {} = .failure .badHeader := by
  constructor <;> decide +kernel

end AvianCore.Http
