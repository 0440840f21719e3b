import AvianCore.Http.HeaderSection

/-!
The request parser (`HTTPParser.swift`): the request line, what the fields say about the body and the
connection, and the grammar of the heads that are accepted.
-/

namespace AvianCore.Http
open AvianCore.Lib List Scanner RequestHead
open Scanner (bind_got refuseIf_got pure_apply bind_starved)

/-- What the fields so far have come to. -/
structure RequestFraming where
  flags : RequestFlags
  keepAlive : Bool
  sawContentLength : Bool := false
  contentLength : Int := -1
  chunked : Bool := false
  sawTransferEncoding : Bool := false
deriving DecidableEq, Repr

def frameRequest (seen : RequestFraming) (field : Field) : Except ParseError RequestFraming :=
  if field.isNamed "host" then
    if seen.flags.hasHost then .error .duplicateHost
    else .ok { seen with flags := { seen.flags with hasHost := true } }
  else if field.isNamed "expect" then
    if containsTokenLowercased field.value (ascii "100-continue") then
      .ok { seen with flags := { seen.flags with expectContinue := true } }
    else .ok seen
  else if field.isNamed "upgrade" then
    .ok { seen with flags := { seen.flags with upgrade := true } }
  else if field.isNamed "connection" then
    if containsTokenLowercased field.value (ascii "close") then .ok { seen with keepAlive := false }
    else if containsTokenLowercased field.value (ascii "keep-alive") then
      .ok { seen with keepAlive := true }
    else .ok seen
  else if field.isNamed "content-length" then
    let v := parseDecimal field.value
    if v < 0 then .error .badHeader
    else if seen.sawContentLength ∧ seen.contentLength ≠ v then .error .conflictingFraming
    else .ok { seen with sawContentLength := true, contentLength := v }
  else if field.isNamed "transfer-encoding" then
    if seen.sawTransferEncoding then .error .conflictingFraming
    else
      match checkTransferEncoding field.value with
      | some e => .error e
      | none => .ok { seen with sawTransferEncoding := true, chunked := true }
  else .ok seen

def isTargetByte (c : UInt8) : Bool := cSP < c && c ≠ 0x7F

/-- The parts of the request line in the head; `base` is the buffer up to the version. -/
def RequestHead.locate (head : RequestHead) (base : Bytes) (methodStart : Nat) (method : Bytes)
    (targetStart : Nat) (target : Bytes) : RequestHead :=
  let named := { head with
    method := classifyMethod method
    methodSlice := .of methodStart method.length
    target := .of targetStart target.length }
  let split := match target.idxOf? cQuestion with
    | some q => { named with
        path := .of targetStart q
        query := .of (targetStart + q + 1) (target.length - q - 1) }
    | none => { named with
        path := .of targetStart target.length
        query := .of (targetStart + target.length) 0 }
  if hasPercent (split.path.text base) then
    { split with flags := { split.flags with escapedPath := true } }
  else split

/-- `HTTP/1.` with a digit and the line end; ten bytes have to be there. -/
def versionLine : Scanner UInt8 ParseError UInt8 := Scanner.reserve 10 do
  let text ← Scanner.exactly 8
  Scanner.refuseIf (text.take 7 ≠ ascii "HTTP/1.") .badVersion
  let minorByte := text.getD 7 0
  Scanner.refuseIf (minorByte ≠ 48 && minorByte ≠ 49) .badVersion
  lineEnd .badRequestLine
  return minorByte - 48

/-- The bytes up to a space, of which there has to be one at least, and where they start. -/
def requestWord (P : UInt8 → Bool) (limit : ParseError) : Scanner UInt8 ParseError (Nat × Bytes) := do
  let start ← Scanner.position
  let text ← Scanner.span P (some limit)
  Scanner.symbol cSP .badRequestLine
  Scanner.refuseIf (text.length = 0) .badRequestLine
  return (start, text)

def requestLine (maxHeadSize : Int) (head : RequestHead) : Scanner UInt8 ParseError RequestHead := do
  let _ ← Scanner.span isBreak none
  let method ← requestWord isTokenChar .headTooLarge
  let target ← requestWord isTargetByte .uriTooLong
  Scanner.refuseIf (maxHeadSize < target.2.length) .uriTooLong
  let base ← Scanner.passed
  let minor ← versionLine
  return { head.locate base method.1 method.2 target.1 target.2 with httpMinor := minor }

def RequestHead.framing (head : RequestHead) : RequestFraming :=
  { flags := head.flags, keepAlive := head.httpMinor = 1 }

def RequestHead.finish (head : RequestHead) (seen : RequestFraming) (headerCount headEnd : Nat) :
    RequestHead :=
  { head with
    flags := { seen.flags with
      chunked := seen.flags.chunked || seen.chunked
      hasContentLength := seen.flags.hasContentLength || seen.sawContentLength
      keepAlive := seen.flags.keepAlive || seen.keepAlive }
    contentLength := if seen.sawContentLength then seen.contentLength
      else if seen.chunked then -1 else 0
    headerCount := headerCount
    headEnd := headEnd }

def requestHead (maxHeadSize maxHeaders : Int) (fuel : Nat) (head : RequestHead) :
    Scanner UInt8 ParseError (RequestHead × List HeaderRef) := do
  let head ← requestLine maxHeadSize head
  let last ← fields maxHeadSize maxHeaders frameRequest fuel head.framing
  Scanner.refuseIf (last.1.chunked && last.1.sawContentLength) .conflictingFraming
  Scanner.refuseIf (head.httpMinor = 1 && !last.1.flags.hasHost) .badRequestLine
  let headEnd ← Scanner.position
  return (head.finish last.1 last.2.length headEnd, last.2)

/-- `HTTPParser.parse`: no loop turns more often than there are bytes. -/
def HTTPParser.parse (base : Bytes) (maxHeadSize maxHeaders : Int) (head : RequestHead) :
    ParseResult RequestHead :=
  conclude maxHeadSize base.length
    (requestHead maxHeadSize maxHeaders (base.length + 1) head ⟨[], base⟩)

theorem versionLine_got {c c' : Cursor UInt8} {minor : UInt8} :
    versionLine c = .got minor c' ↔ ∃ (byte : UInt8) (ending rest : Bytes),
      (byte = 48 ∨ byte = 49) ∧ IsLineEnd ending ∧ minor = byte - 48 ∧
      c.ahead = ascii "HTTP/1." ++ byte :: (ending ++ rest) ∧ 2 ≤ ending.length + rest.length ∧
      c' = ⟨c.behind ++ (ascii "HTTP/1." ++ byte :: ending), rest⟩ := by
  have seven : (ascii "HTTP/1.").length = 7 := by decide
  unfold versionLine
  rw [reserve_got]
  simp only [bind_got, exactly_got, refuseIf_got, lineEnd_got, pure_apply, Outcome.got.injEq]
  constructor
  · rintro ⟨enough, text, _, ⟨length, tail, ahead, rfl⟩, _, _, ⟨version, rfl⟩, _, _, ⟨digit, rfl⟩, _, _,
      ⟨ending, rest, ended, ahead', rfl⟩, rfl, rfl⟩
    simp only [decide_eq_false_iff_not, not_not] at version
    obtain ⟨byte, last⟩ : ∃ byte, text.drop 7 = [byte] := by
      rw [← length_eq_one_iff, length_drop]
      omega
    have whole : text = ascii "HTTP/1." ++ [byte] := by
      rw [← take_append_drop 7 text, version, last]
    have seventh : text.getD 7 0 = byte := by
      rw [whole]
      rfl
    rw [seventh] at digit ⊢
    dsimp only at ahead'
    refine ⟨byte, ending, rest, ?_, ended, rfl, ?_, ?_, ?_⟩
    · by_cases zero : byte = 48
      · exact .inl zero
      · right
        simpa [zero] using digit
    · rw [ahead, whole, ahead']
      simp
    · rw [ahead, whole, ahead'] at enough
      simp only [length_append, length_cons, length_nil, seven] at enough
      omega
    · simp [whole]
  · rintro ⟨byte, ending, rest, digit, ended, rfl, ahead, enough, rfl⟩
    have seventh : (ascii "HTTP/1." ++ [byte]).getD 7 0 = byte := rfl
    refine ⟨?_, ascii "HTTP/1." ++ [byte], _, ⟨?_, ending ++ rest, ?_, rfl⟩, (), _, ⟨?_, rfl⟩, (), _,
      ⟨?_, rfl⟩, (), _, ⟨ending, rest, ended, rfl, rfl⟩, ?_, ?_⟩
    · rw [ahead]
      simp only [length_append, length_cons, seven]
      omega
    · rw [length_append, seven]
      rfl
    · rw [ahead]
      simp
    · rw [take_append_of_le_length (by rw [seven]), take_of_length_le (by rw [seven])]
      simp
    · rw [seventh]
      rcases digit with rfl | rfl <;> decide
    · rw [seventh]
    · simp

theorem incremental_versionLine : Incremental versionLine := by
  apply Incremental.reserve
  · apply (Incremental.exactly 8).bind
    intro text
    apply (Incremental.refuseIf _ _).bind
    intro _
    apply (Incremental.refuseIf _ _).bind
    intro _
    exact (incremental_lineEnd _).bind fun _ => .pure _
  · intro c c' minor got
    simp only [bind_got, exactly_got, refuseIf_got, lineEnd_got, pure_apply, Outcome.got.injEq] at got
    obtain ⟨text, _, ⟨length, rest, ahead, rfl⟩, _, _, ⟨-, rfl⟩, _, _, ⟨-, rfl⟩, _, _,
      ⟨ending, rest', ended, -, rfl⟩, -, rfl⟩ := got
    obtain ⟨x, more, rfl, -⟩ := ended.head
    simp only [length_append, length_cons]
    omega

theorem requestWord_got {P : UInt8 → Bool} (stop : P cSP = false) {limit : ParseError} {c c' : Cursor UInt8}
    {word : Nat × Bytes} :
    requestWord P limit c = .got word c' ↔ ∃ rest, c.ahead = word.2 ++ cSP :: rest ∧ word.2 ≠ [] ∧
      (∀ x ∈ word.2, P x = true) ∧ word.1 = c.behind.length ∧
      c' = ⟨c.behind ++ (word.2 ++ [cSP]), rest⟩ := by
  unfold requestWord
  simp only [bind_got, span_got, position_apply, symbol_got, refuseIf_got, pure_apply, Outcome.got.injEq]
  constructor
  · rintro ⟨_, _, ⟨rfl, rfl⟩, text, _, ⟨s, tail, ahead, all, -, rfl⟩, _, _, ⟨rest, space, rfl⟩, _, _,
      ⟨some, rfl⟩, rfl, rfl⟩
    dsimp only at space
    exact ⟨rest, by rw [ahead, space], by simpa using some, all, rfl, by simp⟩
  · rintro ⟨rest, ahead, some, all, start, rfl⟩
    exact ⟨_, _, ⟨rfl, rfl⟩, word.2, _, ⟨cSP, rest, ahead, all, stop, rfl⟩, (), _, ⟨rest, rfl, rfl⟩, (),
      _, ⟨by simpa using some, rfl⟩, by rw [← start], by simp⟩

theorem requestWord_starved {P : UInt8 → Bool} {limit : ParseError} {c : Cursor UInt8} {limit' : Option ParseError} :
    requestWord P limit c = .starved limit' ↔ (∀ x ∈ c.ahead, P x = true) ∧ limit' = some limit := by
  unfold requestWord
  simp only [bind_starved, span_starved, span_got, position_apply,
    symbol_starved, refuseIf_starved, pure_apply, Outcome.got.injEq,
    reduceCtorEq, and_false, exists_false, false_or, or_false]
  constructor
  · rintro ⟨_, _, ⟨-, rfl⟩, waits | ⟨text, _, ⟨s, tail, -, -, -, rfl⟩, none, -⟩⟩
    · exact waits
    · cases none
  · intro waits
    exact ⟨_, c, ⟨rfl, rfl⟩, Or.inl waits⟩

theorem incremental_requestWord (P : UInt8 → Bool) (limit : ParseError) : Incremental (requestWord P limit) := by
  apply Incremental.position.bind
  intro start
  apply (Incremental.span _ _).bind
  intro text
  apply (Incremental.symbol _ _).bind
  intro _
  exact (Incremental.refuseIf _ _).bind fun _ => .pure _

theorem incremental_requestLine (maxHeadSize : Int) (head : RequestHead) :
    Incremental (requestLine maxHeadSize head) := by
  apply (Incremental.span _ _).bind
  intro _
  apply (incremental_requestWord _ _).bind
  intro method
  apply (incremental_requestWord _ _).bind
  intro target
  apply (Incremental.refuseIf _ _).bind
  intro _
  apply Incremental.passed.bind
  intro base
  exact incremental_versionLine.bind fun _ => .pure _

/-- A request line up to the version, with the line ends before it. -/
structure RequestStart where
  blanks : Bytes
  method : Bytes
  target : Bytes
  breaks : ∀ c ∈ blanks, isBreak c = true
  named : method ≠ []
  token : ∀ c ∈ method, isTokenChar c = true
  aimed : target ≠ []
  visible : ∀ c ∈ target, isTargetByte c = true

def RequestStart.front (start : RequestStart) : Bytes :=
  start.blanks ++ (start.method ++ cSP :: (start.target ++ [cSP]))

/-- A request line that is accepted. -/
structure RequestLine extends RequestStart where
  minor : UInt8
  ending : Bytes
  version : minor = 48 ∨ minor = 49
  ended : IsLineEnd ending

def RequestLine.bytes (line : RequestLine) : Bytes := line.front ++ (ascii "HTTP/1." ++ line.minor :: line.ending)

def RequestLine.head (line : RequestLine) (head : RequestHead) (behind : Bytes) : RequestHead :=
  { head.locate (behind ++ line.front) (behind.length + line.blanks.length) line.method
      (behind.length + line.blanks.length + line.method.length + 1) line.target with
    httpMinor := line.minor - 48 }

section RequestLine
variable {maxHeadSize : Int} {head head' : RequestHead} {c c' : Cursor UInt8}

theorem requestLine_got : requestLine maxHeadSize head c = .got head' c' ↔
    ∃ (line : RequestLine) (rest : Bytes), c.ahead = line.bytes ++ rest ∧
      c' = ⟨c.behind ++ line.bytes, rest⟩ ∧ line.target.length ≤ maxHeadSize ∧
      2 ≤ line.ending.length + rest.length ∧ head' = line.head head c.behind := by
  obtain ⟨u, r⟩ := c
  unfold requestLine
  simp only [bind_got, span_got, requestWord_got (by decide : isTokenChar cSP = false),
    requestWord_got (by decide : isTargetByte cSP = false), refuseIf_got,
    passed_apply, versionLine_got, pure_apply, Outcome.got.injEq]
  constructor
  · rintro ⟨blanks, _, ⟨first, tail, ahead, breaks, -, rfl⟩, ⟨_, method⟩, _,
      ⟨tail', ahead', named, token, rfl, rfl⟩, ⟨_, target⟩, _,
      ⟨after, aims, aimed, visible, rfl, rfl⟩, _, _, ⟨small, rfl⟩, _, _, ⟨rfl, rfl⟩, minor, _,
      ⟨byte, ending, rest, digit, ended, rfl, ahead'', enough, rfl⟩, rfl, rfl⟩
    dsimp only at ahead' aims ahead'' small
    refine ⟨⟨⟨blanks, method, target, breaks, named, token, aimed, visible⟩, byte, ending, digit,
      ended⟩, rest, ?_, ?_, by simpa using small, enough, ?_⟩
    · rw [ahead, ahead', aims, ahead'']
      simp [RequestLine.bytes, RequestStart.front]
    · simp [RequestLine.bytes, RequestStart.front]
    · simp [RequestLine.head, RequestStart.front, Nat.add_assoc]
  · rintro ⟨⟨⟨blanks, method, target, breaks, named, token, aimed, visible⟩, minor, ending, digit,
      ended⟩, rest, ahead, rfl, small, enough, rfl⟩
    obtain ⟨m, ms, rfl⟩ := exists_cons_of_ne_nil named
    dsimp only [RequestLine.bytes, RequestStart.front] at ahead
    simp only [append_assoc, cons_append, nil_append] at ahead
    refine ⟨blanks, _, ⟨m, _, ahead, breaks, (isTokenChar_not_break (token m mem_cons_self)).1, rfl⟩, (_, m :: ms), _,
      ⟨_, rfl, named, token, rfl, rfl⟩, (_, target), _, ⟨_, rfl, aimed, visible, rfl, rfl⟩, (), _,
      ⟨by simpa using small, rfl⟩, _, _, ⟨rfl, rfl⟩, minor - 48, _,
      ⟨minor, ending, rest, digit, ended, rfl, rfl, enough, rfl⟩, ?_, ?_⟩
    · simp [RequestLine.head, RequestStart.front, Nat.add_assoc]
    · simp [RequestLine.bytes, RequestStart.front]

theorem versionLine_starved {limit : Option ParseError} :
    versionLine c = .starved limit ↔ c.ahead.length < 10 ∧ limit = none := by
  unfold versionLine
  rw [reserve_starved]
  constructor
  · rintro (short | ⟨enough, starved⟩)
    · exact short
    · simp only [bind_starved, exactly_starved, exactly_got,
        refuseIf_starved, refuseIf_got, lineEnd_starved, pure_apply,
        reduceCtorEq, and_false, exists_false, or_false, false_or] at starved
      rcases starved with ⟨short, rfl⟩ | ⟨text, _, ⟨length, rest, ahead, rfl⟩, _, _, ⟨-, rfl⟩, _, _,
        ⟨-, rfl⟩, none | only, rfl⟩
      · exact ⟨by omega, rfl⟩
      · refine ⟨?_, rfl⟩
        dsimp only at none
        rw [ahead, none, length_append, length_nil]
        omega
      · refine ⟨?_, rfl⟩
        dsimp only at only
        rw [ahead, only, length_append, length_singleton]
        omega
  · exact .inl

theorem requestLine_starved_none : requestLine maxHeadSize head c = .starved none ↔
    (∀ x ∈ c.ahead, isBreak x = true) ∨ ∃ (start : RequestStart) (rest : Bytes),
      c.ahead = start.front ++ rest ∧ start.target.length ≤ maxHeadSize ∧ rest.length < 10 := by
  obtain ⟨u, r⟩ := c
  unfold requestLine
  simp only [bind_starved, span_starved, span_got, requestWord_starved,
    requestWord_got (by decide : isTokenChar cSP = false),
    requestWord_got (by decide : isTargetByte cSP = false), refuseIf_starved,
    refuseIf_got, passed_apply, versionLine_starved, pure_apply,
    Outcome.got.injEq, reduceCtorEq, and_false, and_true, exists_false, false_or, or_false]
  constructor
  · rintro (all | ⟨blanks, _, ⟨first, tail, ahead, breaks, -, rfl⟩, ⟨_, method⟩, _,
      ⟨tail', ahead', named, token, rfl, rfl⟩, ⟨_, target⟩, _,
      ⟨after, aims, aimed, visible, rfl, rfl⟩, _, _, ⟨small, rfl⟩, _, _, ⟨rfl, rfl⟩, short⟩)
    · exact .inl all
    · right
      dsimp only at ahead' aims small short
      refine ⟨⟨blanks, method, target, breaks, named, token, aimed, visible⟩, after, ?_, by simpa using small, short⟩
      rw [ahead, ahead', aims]
      simp [RequestStart.front]
  · rintro (all | ⟨⟨blanks, method, target, breaks, named, token, aimed, visible⟩, rest, ahead, small, short⟩)
    · exact .inl all
    · right
      obtain ⟨m, ms, rfl⟩ := exists_cons_of_ne_nil named
      dsimp only [RequestStart.front] at ahead
      simp only [append_assoc, cons_append, nil_append] at ahead
      exact ⟨blanks, _, ⟨m, _, ahead, breaks, (isTokenChar_not_break (token m mem_cons_self)).1, rfl⟩, (_, m :: ms), _,
        ⟨_, rfl, named, token, rfl, rfl⟩, (_, target), _, ⟨_, rfl, aimed, visible, rfl, rfl⟩, (), _,
        ⟨by simpa using small, rfl⟩, _, _, ⟨rfl, rfl⟩, short⟩

end RequestLine

/-- A buffer that starts with a request head that is accepted. -/
structure AcceptedRequest (maxHeadSize maxHeaders : Int) (head : RequestHead) (b : Bytes)
    (line : RequestLine) (lines : List Line) (ending rest : Bytes) (last : RequestFraming) :
    Prop where
  whole : b = line.bytes ++ (linesBytes lines ++ (ending ++ rest))
  ended : IsLineEnd ending
  small : line.target.length ≤ maxHeadSize
  accepted : Accepted maxHeadSize maxHeaders frameRequest line.bytes.length 0
    (line.head head []).framing lines last
  framed : (last.chunked && last.sawContentLength) = false
  hosted : ((line.head head []).httpMinor = 1 && !last.flags.hasHost) = false

section Whole
variable {maxHeadSize maxHeaders : Int} {head head' : RequestHead} {b : Bytes}
  {headers : List HeaderRef}

theorem requestLine_first (maxHeadSize : Int) (head : RequestHead) :
    FirstLine (requestLine maxHeadSize head) RequestLine.bytes (·.head head []) fun line rest =>
      line.target.length ≤ maxHeadSize ∧ 2 ≤ line.ending.length + rest.length :=
  ⟨incremental_requestLine maxHeadSize head, by simp only [requestLine_got, nil_append, and_assoc, implies_true]⟩

theorem requestHead_end : HeadEnd (fun (head : RequestHead) last => do
      Scanner.refuseIf (last.1.chunked && last.1.sawContentLength) .conflictingFraming
      Scanner.refuseIf (head.httpMinor = 1 && !last.1.flags.hasHost) .badRequestLine
      let headEnd ← Scanner.position
      return (head.finish last.1 last.2.length headEnd, last.2))
    (fun head last => (last.chunked && last.sawContentLength) = false ∧
      (head.httpMinor = 1 && !last.flags.hasHost) = false ∧ True) finish :=
  ((HeadEnd.finished finish).refuse (fun head last => head.httpMinor = 1 && !last.flags.hasHost) _).refuse
    (fun _ last => last.chunked && last.sawContentLength) _

theorem RequestLine.fits {line : RequestLine} {rest : Bytes} (filled : rest ≠ []) :
    2 ≤ line.ending.length + rest.length := by
  obtain ⟨x, more, ending, -⟩ := line.ended.head
  rw [ending, length_cons]
  have positive := length_pos_iff.mpr filled
  omega

theorem scans_request (maxHeadSize maxHeaders : Int) (head : RequestHead) :
    Scans maxHeadSize (fun b => HTTPParser.parse b maxHeadSize maxHeaders head)
      (fun n => requestHead maxHeadSize maxHeaders n head) headEnd :=
  scans_headScan (requestLine_first maxHeadSize head) requestHead_end fun _ _ _ _ => rfl

theorem HTTPParser.parse_complete : HTTPParser.parse b maxHeadSize maxHeaders head = .complete head' headers ↔
    ∃ line lines ending rest last, AcceptedRequest maxHeadSize maxHeaders head b line lines ending rest last ∧
      head' = (line.head head []).finish last lines.length (line.bytes ++ (linesBytes lines ++ ending)).length ∧
      headers = (located line.bytes.length lines).map Field.ref := by
  have got := @headScan_got _ _ _ maxHeadSize maxHeaders _ _ _ _ frameRequest framing _ _ _ _ b
    (requestLine_first maxHeadSize head) requestHead_end (Nat.lt_succ_self _) (head', headers)
  refine conclude_complete.trans ((exists_congr fun c' => got).trans ?_)
  constructor
  · rintro ⟨_, line, lines, ending, rest, last, whole, ended, ⟨small, -⟩, accepted, ⟨framed, hosted, -⟩, -, result⟩
    exact ⟨line, lines, ending, rest, last, ⟨whole, ended, small, accepted, framed, hosted⟩, Prod.mk.inj result⟩
  · rintro ⟨line, lines, ending, rest, last, ⟨whole, ended, small, accepted, framed, hosted⟩, rfl, rfl⟩
    obtain ⟨x, more, filled, -⟩ := ended.head
    exact ⟨_, line, lines, ending, rest, last, whole, ended, ⟨small, line.fits (by simp [filled])⟩, accepted,
      ⟨framed, hosted, trivial⟩, rfl, rfl⟩

/-- The request parser accepts exactly the buffers that begin with a head of the grammar, within its limits. -/
theorem request_accepted_iff :
    (∃ head' headers, HTTPParser.parse b maxHeadSize maxHeaders head = .complete head' headers) ↔
      ∃ line lines ending rest last, AcceptedRequest maxHeadSize maxHeaders head b line lines ending rest last := by
  constructor
  · rintro ⟨_, _, complete⟩
    obtain ⟨line, lines, ending, rest, last, accepted, -⟩ := HTTPParser.parse_complete.mp complete
    exact ⟨line, lines, ending, rest, last, accepted⟩
  · rintro ⟨_, _, _, _, _, accepted⟩
    exact ⟨_, _, HTTPParser.parse_complete.mpr ⟨_, _, _, _, _, accepted, rfl, rfl⟩⟩

/-- What a buffer holds in which the request parser waits, however large it is. -/
inductive UnendedRequest (maxHeadSize maxHeaders : Int) (head : RequestHead) : Bytes → Prop
  | blanks {b : Bytes} (breaks : ∀ c ∈ b, isBreak c = true) : UnendedRequest maxHeadSize maxHeaders head b
  | version (start : RequestStart) (rest : Bytes) (small : start.target.length ≤ maxHeadSize)
      (short : rest.length < 10) : UnendedRequest maxHeadSize maxHeaders head (start.front ++ rest)
  | field (line : RequestLine) (lines : List Line) (part : Bytes) (last : RequestFraming)
      (small : line.target.length ≤ maxHeadSize)
      (accepted : Accepted maxHeadSize maxHeaders frameRequest line.bytes.length 0
        (line.head head []).framing lines last)
      (unended : Unended part) :
      UnendedRequest maxHeadSize maxHeaders head (line.bytes ++ (linesBytes lines ++ part))

theorem requestHead_starved_none {fuel : Nat} (enough : b.length < fuel) :
    requestHead maxHeadSize maxHeaders fuel head ⟨[], b⟩ = .starved none ↔
      UnendedRequest maxHeadSize maxHeaders head b := by
  refine (headScan_starved_none (requestLine_first maxHeadSize head) requestHead_end enough).trans ?_
  rw [requestLine_starved_none]
  constructor
  · rintro ((breaks | ⟨start, rest, rfl, small, short⟩) | ⟨line, lines, part, last, rfl, ⟨small, -⟩, accepted, unended⟩)
    · exact .blanks breaks
    · exact .version start rest small short
    · exact .field line lines part last small accepted unended
  · intro unended
    cases unended with
    | blanks breaks => exact .inl (Or.inl breaks)
    | version start rest small short => exact .inl (Or.inr ⟨start, rest, rfl, small, short⟩)
    | field line lines part last small accepted unended =>
      obtain ⟨x, more, filled, -⟩ := unended.head
      exact .inr ⟨line, lines, part, last, rfl, ⟨small, line.fits (by simp [filled])⟩, accepted, unended⟩

end Whole

end AvianCore.Http
