import AvianCore.Http.HeaderSection

/-!
The response parser (`HTTPResponseParser.swift`): the status line, what the fields say about the body
and the connection, and the grammar of the heads that are accepted.
-/

namespace AvianCore.Http
open AvianCore.Lib List Scanner ResponseHead
open Scanner (bind_got span_got pure_apply bind_starved)

/-- What the fields so far have come to. -/
structure ResponseFraming where
  keepAlive : Bool
  contentLength : Int
  isChunked : Bool
  sawContentLength : Bool := false
deriving DecidableEq, Repr

def frameResponse (seen : ResponseFraming) (field : Field) : Except ParseError ResponseFraming :=
  if field.isNamed "connection" then
    if containsToken field.value (ascii "close") then .ok { seen with keepAlive := false }
    else if containsToken field.value (ascii "keep-alive") then .ok { seen with keepAlive := true }
    else .ok seen
  else if field.isNamed "content-length" then
    match parseLength field.value with
    | none => .error .badHeader
    | some value =>
      if seen.sawContentLength ∧ seen.contentLength ≠ value then .error .conflictingFraming
      else .ok { seen with contentLength := value, sawContentLength := true }
  else if field.isNamed "transfer-encoding" then
    if endsWithChunked field.value = false then .error .unsupportedTransferEncoding
    else if seen.isChunked then .error .conflictingFraming
    else .ok { seen with isChunked := true }
  else .ok seen

/-- The version: `HTTP/1.` with a digit. -/
def readVersion (v : Bytes) : Except ParseError (UInt8 × UInt8) :=
  match v with
  | [v0, v1, v2, v3, v4, v5, v6, v7] =>
    if [v0, v1, v2, v3, v4, v6] = ascii "HTTP/." ∧ isDigit v5 ∧ isDigit v7 then
      if v5 - cZero = 1 then .ok (v5 - cZero, v7 - cZero) else .error .badVersion
    else .error .badVersion
  | _ => .error .badVersion

def statusVersion : Scanner UInt8 ParseError (UInt8 × UInt8) := do
  let v ← Scanner.span (· ≠ cSP) (some .headTooLarge)
  let version ← Scanner.lift (readVersion v)
  Scanner.symbol cSP .badVersion
  return version

def statusValue (code : Bytes) : Nat :=
  match code with
  | [a, b, c] => (a - cZero).toNat * 100 + (b - cZero).toNat * 10 + (c - cZero).toNat
  | _ => 0

def isReasonByte (c : UInt8) : Bool := c ≠ cCR && c ≠ cLF && (isFieldValueChar c || c = cSP || c = cHT)

def reasonPhrase : Scanner UInt8 ParseError (Nat × Bytes) := do
  let start ← Scanner.position
  let reason ← Scanner.span isReasonByte (some .headTooLarge)
  lineEnd .badStatusLine
  return (start, reason)

def reasonLine : Scanner UInt8 ParseError (Nat × Bytes) := do
  let next ← Scanner.peek (some .headTooLarge)
  Scanner.refuseIf (isDigit next) .badStatusLine
  if next = cSP then
    Scanner.symbol cSP .badStatusLine
    reasonPhrase
  else reasonPhrase

def statusText : Scanner UInt8 ParseError (Nat × Nat × Bytes) := do
  let code ← Scanner.exactly 3
  Scanner.refuseIf (!code.all isDigit) .badStatusLine
  let reason ← reasonLine
  return (statusValue code, reason)

def statusLine (head : ResponseHead) : Scanner UInt8 ParseError ResponseHead := do
  let _ ← Scanner.span isBreak none
  let version ← statusVersion
  let text ← statusText
  return { head with
    httpMajor := version.1
    httpMinor := version.2
    keepAlive := 1 ≤ version.2
    status := text.1
    reason := .of text.2.1 text.2.2.length }

def ResponseHead.framing (head : ResponseHead) : ResponseFraming :=
  { keepAlive := head.keepAlive, contentLength := head.contentLength, isChunked := head.isChunked }

def ResponseHead.finish (head : ResponseHead) (seen : ResponseFraming) (headerCount headEnd : Nat) :
    ResponseHead :=
  { head with
    keepAlive := seen.keepAlive
    contentLength := seen.contentLength
    isChunked := seen.isChunked
    headerCount := headerCount
    headEnd := headEnd }

def responseHead (maxHeadSize maxHeaders : Int) (fuel : Nat) (head : ResponseHead) :
    Scanner UInt8 ParseError (ResponseHead × List HeaderRef) := do
  let head ← statusLine head
  let last ← fields maxHeadSize maxHeaders frameResponse fuel head.framing
  Scanner.refuseIf (last.1.isChunked && last.1.sawContentLength) .conflictingFraming
  let headEnd ← Scanner.position
  return (head.finish last.1 last.2.length headEnd, last.2)

/-- `HTTPResponseParser.parse`: no loop turns more often than there are bytes. -/
def HTTPResponseParser.parse (base : Bytes) (maxHeadSize maxHeaders : Int) (head : ResponseHead) :
    ParseResult ResponseHead :=
  conclude maxHeadSize base.length
    (responseHead maxHeadSize maxHeaders (base.length + 1) head ⟨[], base⟩)

/-- A status and its reason phrase. -/
structure StatusText where
  code : Bytes
  gap : Bytes
  reason : Bytes
  three : code.length = 3
  digits : ∀ c ∈ code, isDigit c = true
  spaced : gap = [cSP] ∨ gap = [] ∧ ∀ c ∈ reason.head?, c ≠ cSP ∧ isDigit c = false
  printable : ∀ c ∈ reason, isReasonByte c = true

def StatusText.bytes (text : StatusText) : Bytes := text.code ++ (text.gap ++ text.reason)

/-- A status line up to the status, with the line ends before it. -/
structure StatusStart where
  blanks : Bytes
  minor : UInt8
  breaks : ∀ c ∈ blanks, isBreak c = true
  digit : isDigit minor = true

def StatusStart.front (start : StatusStart) : Bytes := start.blanks ++ (ascii "HTTP/1." ++ [start.minor, cSP])

/-- A status line that is accepted. -/
structure StatusLine extends StatusStart where
  text : StatusText
  ending : Bytes
  ended : IsLineEnd ending

def StatusLine.bytes (line : StatusLine) : Bytes := line.front ++ (line.text.bytes ++ line.ending)

def StatusLine.head (line : StatusLine) (head : ResponseHead) (start : Nat) : ResponseHead :=
  { head with
    httpMajor := 1
    httpMinor := line.minor - cZero
    keepAlive := 1 ≤ line.minor - cZero
    status := statusValue line.text.code
    reason := .of (start + line.front.length + 3 + line.text.gap.length) line.text.reason.length }

section StatusLine
variable {c c' : Cursor UInt8}

theorem readVersion_ok {v : Bytes} {version : UInt8 × UInt8} :
    readVersion v = .ok version ↔ ∃ minor, isDigit minor = true ∧ v = ascii "HTTP/1." ++ [minor] ∧
      version = (1, minor - cZero) := by
  constructor
  · intro read
    unfold readVersion at read
    split at read
    case h_1 v0 v1 v2 v3 v4 v5 v6 v7 =>
      split at read
      case isTrue shape =>
        split at read
        case isTrue one =>
          cases read
          obtain ⟨letters, -, digit⟩ := shape
          have text : ascii "HTTP/." = [72, 84, 84, 80, 47, 46] := by decide
          have major : v5 = 49 := by
            rw [← UInt8.sub_add_cancel v5 cZero, one]
            decide
          rw [text] at letters
          simp only [List.cons.injEq] at letters
          obtain ⟨rfl, rfl, rfl, rfl, rfl, rfl, -⟩ := letters
          subst major
          exact ⟨v7, digit, rfl, by rw [one]⟩
        case isFalse => cases read
      case isFalse => cases read
    case h_2 => cases read
  · rintro ⟨minor, digit, rfl, rfl⟩
    have text : ascii "HTTP/1." ++ [minor] = [72, 84, 84, 80, 47, 49, 46, minor] := rfl
    rw [text]
    unfold readVersion
    dsimp only
    rw [if_pos ⟨by decide, by decide, digit⟩, if_pos (by decide)]
    rfl

theorem isDigit_ne {c d : UInt8} (digit : isDigit c = true) (other : isDigit d = false) : c ≠ d := by
  rintro rfl
  cases digit.symm.trans other

theorem version_ne_space {minor : UInt8} (digit : isDigit minor = true) :
    ∀ x ∈ ascii "HTTP/1." ++ [minor], (decide (x ≠ cSP)) = true := by
  have letters : ∀ x ∈ ascii "HTTP/1.", (decide (x ≠ cSP)) = true := by decide +kernel
  intro x member
  rcases mem_append.mp member with letter | last
  · exact letters x letter
  rw [mem_singleton] at last
  subst last
  exact decide_eq_true (isDigit_ne digit (by decide : isDigit cSP = false))

theorem statusVersion_got {version : UInt8 × UInt8} :
    statusVersion c = .got version c' ↔ ∃ (minor : UInt8) (rest : Bytes), isDigit minor = true ∧
      c.ahead = ascii "HTTP/1." ++ minor :: cSP :: rest ∧ version = (1, minor - cZero) ∧
      c' = ⟨c.behind ++ (ascii "HTTP/1." ++ [minor, cSP]), rest⟩ := by
  unfold statusVersion
  simp only [bind_got, span_got, lift_got, readVersion_ok, symbol_got, pure_apply, Outcome.got.injEq]
  constructor
  · rintro ⟨v, _, ⟨s, tail, ahead, -, -, rfl⟩, _, _, ⟨⟨minor, digit, rfl, rfl⟩, rfl⟩, _, _,
      ⟨rest, space, rfl⟩, rfl, rfl⟩
    dsimp only at space
    refine ⟨minor, rest, digit, ?_, rfl, ?_⟩
    · rw [ahead, space]
      simp
    · simp
  · rintro ⟨minor, rest, digit, ahead, rfl, rfl⟩
    refine ⟨ascii "HTTP/1." ++ [minor], _, ⟨cSP, rest, ?_, version_ne_space digit, by decide, rfl⟩, _, _,
      ⟨⟨minor, digit, rfl, rfl⟩, rfl⟩, (), _, ⟨rest, rfl, rfl⟩, rfl, ?_⟩
    · rw [ahead]
      simp
    · simp

theorem statusVersion_starved {limit : Option ParseError} :
    statusVersion c = .starved limit → limit = some .headTooLarge := by
  unfold statusVersion
  simp only [bind_starved, span_starved, span_got, lift_starved,
    lift_got, symbol_starved, pure_apply, reduceCtorEq, and_false,
    exists_false, false_or, or_false]
  rintro (⟨-, rfl⟩ | ⟨v, _, ⟨s, tail, -, -, -, rfl⟩, _, _, ⟨-, rfl⟩, none, -⟩)
  · rfl
  · cases none

theorem IsLineEnd.not_reason {ending : Bytes} (ended : IsLineEnd ending) :
    ∃ x more, ending = x :: more ∧ isReasonByte x = false ∧ x ≠ cSP ∧ isDigit x = false := by
  rcases ended with rfl | rfl
  · exact ⟨cCR, [cLF], rfl, by decide, by decide, by decide⟩
  · exact ⟨cLF, [], rfl, by decide, by decide, by decide⟩

theorem reasonPhrase_got {phrase : Nat × Bytes} : reasonPhrase c = .got phrase c' ↔ ∃ ending rest, IsLineEnd ending ∧
    c.ahead = phrase.2 ++ (ending ++ rest) ∧ (∀ x ∈ phrase.2, isReasonByte x = true) ∧
    phrase.1 = c.behind.length ∧ c' = ⟨c.behind ++ (phrase.2 ++ ending), rest⟩ := by
  unfold reasonPhrase
  simp only [bind_got, position_apply, span_got, lineEnd_got, pure_apply, Outcome.got.injEq]
  constructor
  · rintro ⟨_, _, ⟨rfl, rfl⟩, text, _, ⟨s, tail, ahead, all, -, rfl⟩, _, _,
      ⟨ending, rest, ended, ahead', rfl⟩, rfl, rfl⟩
    dsimp only at ahead'
    exact ⟨ending, rest, ended, by rw [ahead, ahead'], all, rfl, by simp⟩
  · rintro ⟨ending, rest, ended, ahead, all, start, rfl⟩
    obtain ⟨x, more, rfl, stop, -⟩ := ended.not_reason
    exact ⟨_, _, ⟨rfl, rfl⟩, phrase.2, _, ⟨x, more ++ rest, ahead, all, stop, rfl⟩, (), _,
      ⟨x :: more, rest, ended, rfl, rfl⟩, by rw [← start], by simp⟩

theorem reasonPhrase_starved_none : reasonPhrase c = .starved none ↔
    ∃ reason, c.ahead = reason ++ [cCR] ∧ ∀ x ∈ reason, isReasonByte x = true := by
  unfold reasonPhrase
  simp only [bind_starved, position_apply, span_starved, span_got,
    lineEnd_starved, pure_apply, Outcome.got.injEq, reduceCtorEq, and_false, and_true,
    exists_false, false_or, or_false]
  constructor
  · rintro ⟨_, _, ⟨-, rfl⟩, text, _, ⟨s, tail, ahead, all, -, rfl⟩, none | only⟩
    · cases none
    · dsimp only at only
      exact ⟨text, by rw [ahead, only], all⟩
  · rintro ⟨reason, ahead, all⟩
    exact ⟨_, c, ⟨rfl, rfl⟩, reason, _, ⟨cCR, [], ahead, all, by decide, rfl⟩, Or.inr rfl⟩

def IsGap (gap reason : Bytes) : Prop := gap = [cSP] ∨ gap = [] ∧ ∀ c ∈ reason.head?, c ≠ cSP ∧ isDigit c = false

theorem reasonLine_cases (c : Cursor UInt8) : (c.ahead = [] ∧ reasonLine c = .starved (some .headTooLarge)) ∨
    (reasonLine c = .refused .badStatusLine ∧ ∃ x ∈ c.ahead.head?, isDigit x = true) ∨
    ∃ gap rest, IsGap gap rest ∧ c.ahead = gap ++ rest ∧ reasonLine c = reasonPhrase ⟨c.behind ++ gap, rest⟩ := by
  obtain ⟨u, r⟩ := c
  cases r with
  | nil => exact .inl ⟨rfl, rfl⟩
  | cons x xs =>
    have step : reasonLine ⟨u, x :: xs⟩ = (Scanner.refuseIf (isDigit x) .badStatusLine >>= fun _ =>
        if x = cSP then Scanner.symbol cSP .badStatusLine >>= fun _ => reasonPhrase
        else reasonPhrase) ⟨u, x :: xs⟩ := rfl
    rw [step, bind_apply]
    right
    cases digit : isDigit x with
    | true => exact .inl ⟨rfl, x, rfl, digit⟩
    | false =>
      right
      by_cases space : x = cSP
      · subst space
        exact ⟨[cSP], xs, Or.inl rfl, rfl, rfl⟩
      refine ⟨[], x :: xs, Or.inr ⟨rfl, ?_⟩, rfl, ?_⟩
      · intro y first
        cases first
        exact ⟨space, digit⟩
      · show (if x = cSP then _ else reasonPhrase) (⟨u, x :: xs⟩ : Cursor UInt8) = _
        rw [if_neg space, append_nil]

theorem reasonLine_apply {gap rest : Bytes} (some : rest ≠ []) (spaced : IsGap gap rest)
    (ahead : c.ahead = gap ++ rest) : reasonLine c = reasonPhrase ⟨c.behind ++ gap, rest⟩ := by
  rcases reasonLine_cases c with ⟨empty, -⟩ | ⟨-, x, first, digit⟩ | ⟨gap', rest', spaced', ahead', same⟩
  · rw [ahead] at empty
    exact absurd (append_eq_nil_iff.mp empty).2 some
  · rw [ahead] at first
    rcases spaced with rfl | ⟨rfl, clear⟩
    · cases first
      cases digit
    rw [nil_append] at first
    rw [(clear x first).2] at digit
    cases digit
  · have equal : gap' ++ rest' = gap ++ rest := ahead'.symm.trans ahead
    rcases spaced with rfl | ⟨rfl, clear⟩
    · rcases spaced' with rfl | ⟨rfl, clear'⟩
      · cases equal
        exact same
      · have space := (clear' cSP (by rw [← nil_append rest', equal]; rfl)).1
        exact absurd rfl space
    rcases spaced' with rfl | ⟨rfl, clear'⟩
    · have space := (clear cSP (by rw [← nil_append rest, ← equal]; rfl)).1
      exact absurd rfl space
    rw [nil_append, nil_append] at equal
    subst equal
    exact same

theorem IsGap.before {gap reason rest : Bytes} (spaced : IsGap gap reason)
    (clear : ∀ x ∈ rest.head?, x ≠ cSP ∧ isDigit x = false) : IsGap gap (reason ++ rest) := by
  rcases spaced with space | ⟨none, free⟩
  · exact .inl space
  refine .inr ⟨none, ?_⟩
  cases reason with
  | cons x xs => exact free
  | nil => exact clear

theorem IsGap.append {gap reason ending : Bytes} (spaced : IsGap gap reason) (ended : IsLineEnd ending)
    (rest : Bytes) : IsGap gap (reason ++ (ending ++ rest)) := by
  obtain ⟨x, more, rfl, -, space, digit⟩ := ended.not_reason
  apply spaced.before
  intro y first
  cases first
  exact ⟨space, digit⟩

theorem IsGap.of_append {gap reason rest : Bytes} (spaced : IsGap gap (reason ++ rest)) : IsGap gap reason := by
  rcases spaced with space | ⟨none, clear⟩
  · exact .inl space
  refine .inr ⟨none, ?_⟩
  cases reason with
  | cons x xs => exact clear
  | nil =>
    intro y first
    cases first

theorem statusText_got {status start : Nat} {reason : Bytes} :
    statusText c = .got (status, start, reason) c' ↔ ∃ (text : StatusText) (ending rest : Bytes),
      IsLineEnd ending ∧ c.ahead = text.bytes ++ (ending ++ rest) ∧
      c' = ⟨c.behind ++ (text.bytes ++ ending), rest⟩ ∧ status = statusValue text.code ∧
      start = c.behind.length + 3 + text.gap.length ∧ reason = text.reason := by
  unfold statusText
  simp only [bind_got, exactly_got, refuseIf_got, pure_apply, Outcome.got.injEq, Prod.mk.injEq]
  constructor
  · rintro ⟨code, _, ⟨three, tail, ahead, rfl⟩, _, _, ⟨digits, rfl⟩, _, _, line, ⟨rfl, rfl⟩, rfl⟩
    rcases reasonLine_cases ⟨c.behind ++ code, tail⟩ with ⟨-, none⟩ | ⟨none, -⟩ | ⟨gap, rest, spaced, ahead', same⟩
    · cases none.symm.trans line
    · cases none.symm.trans line
    rw [same] at line
    obtain ⟨ending, rest', ended, ahead'', printable, begins, rfl⟩ := reasonPhrase_got.mp line
    dsimp only at ahead' ahead'' printable begins
    rw [ahead''] at spaced ahead'
    refine ⟨⟨code, gap, reason, three, ?_, spaced.of_append, printable⟩, ending, rest', ended, ?_, ?_, rfl, ?_, rfl⟩
    · simpa using digits
    · rw [ahead, ahead']
      simp [StatusText.bytes]
    · simp [StatusText.bytes]
    · rw [begins, length_append, length_append, three]
  · rintro ⟨⟨code, gap, reason, three, digits, spaced, printable⟩, ending, rest, ended, ahead, rfl, rfl, rfl, rfl⟩
    dsimp only [StatusText.bytes] at ahead ⊢
    have some : reason ++ (ending ++ rest) ≠ [] := by
      obtain ⟨x, more, rfl, -⟩ := ended.not_reason
      simp
    refine ⟨code, _, ⟨three, gap ++ (reason ++ (ending ++ rest)), ?_, rfl⟩, (), _,
      ⟨by simpa using digits, rfl⟩, (c.behind.length + 3 + gap.length, reason), _, ?_, ⟨rfl, rfl⟩, rfl⟩
    · rw [ahead]
      simp
    · rw [reasonLine_apply some (IsGap.append spaced ended rest) rfl]
      apply reasonPhrase_got.mpr
      refine ⟨ending, rest, ended, rfl, printable, ?_, ?_⟩
      · rw [length_append, length_append, three]
      · simp

theorem statusText_starved_none : statusText c = .starved none ↔
    c.ahead.length < 3 ∨ ∃ text : StatusText, c.ahead = text.bytes ++ [cCR] := by
  unfold statusText
  simp only [bind_starved, exactly_starved, exactly_got,
    refuseIf_starved, refuseIf_got, pure_apply, reduceCtorEq, and_false,
    and_true, exists_false, false_or, or_false]
  apply or_congr Iff.rfl
  constructor
  · rintro ⟨code, _, ⟨three, tail, ahead, rfl⟩, _, _, ⟨digits, rfl⟩, line⟩
    rcases reasonLine_cases ⟨c.behind ++ code, tail⟩ with ⟨-, none⟩ | ⟨none, -⟩ | ⟨gap, rest, spaced, ahead', same⟩
    · cases none.symm.trans line
    · cases none.symm.trans line
    rw [same] at line
    obtain ⟨reason, ahead'', printable⟩ := reasonPhrase_starved_none.mp line
    dsimp only at ahead' ahead''
    rw [ahead''] at spaced ahead'
    refine ⟨⟨code, gap, reason, three, by simpa using digits, spaced.of_append, printable⟩, ?_⟩
    rw [ahead, ahead']
    simp [StatusText.bytes]
  · rintro ⟨⟨code, gap, reason, three, digits, spaced, printable⟩, ahead⟩
    dsimp only [StatusText.bytes] at ahead
    have spaced' : IsGap gap (reason ++ [cCR]) := by
      apply IsGap.before spaced
      intro y first
      cases first
      decide
    refine ⟨code, _, ⟨three, gap ++ (reason ++ [cCR]), by rw [ahead]; simp, rfl⟩, (), _,
      ⟨by simpa using digits, rfl⟩, ?_⟩
    rw [reasonLine_apply (by simp) spaced' rfl]
    exact reasonPhrase_starved_none.mpr ⟨reason, rfl, printable⟩

theorem incremental_reasonPhrase : Incremental reasonPhrase := by
  apply Incremental.position.bind
  intro start
  apply (Incremental.span _ _).bind
  intro reason
  exact (incremental_lineEnd _).bind fun _ => .pure _

theorem incremental_statusLine (head : ResponseHead) : Incremental (statusLine head) := by
  apply (Incremental.span _ _).bind
  intro _
  apply Incremental.bind
  · apply (Incremental.span _ _).bind
    intro v
    apply (Incremental.lift _).bind
    intro version
    exact (Incremental.symbol _ _).bind fun _ => .pure _
  · intro version
    apply Incremental.bind
    · apply (Incremental.exactly 3).bind
      intro code
      apply (Incremental.refuseIf _ _).bind
      intro _
      apply Incremental.bind
      · apply (Incremental.peek _).bind
        intro next
        apply (Incremental.refuseIf _ _).bind
        intro _
        apply Incremental.ite
        · exact (Incremental.symbol _ _).bind fun _ => incremental_reasonPhrase
        · exact incremental_reasonPhrase
      · intro reason
        exact .pure _
    · intro text
      exact .pure _

theorem statusLine_got {head head' : ResponseHead} : statusLine head c = .got head' c' ↔
    ∃ (line : StatusLine) (rest : Bytes), c.ahead = line.bytes ++ rest ∧
      c' = ⟨c.behind ++ line.bytes, rest⟩ ∧ head' = line.head head c.behind.length := by
  unfold statusLine
  constructor
  · intro got
    simp only [bind_got, span_got, statusVersion_got, pure_apply, Outcome.got.injEq] at got
    obtain ⟨blanks, _, ⟨first, tail, ahead, breaks, -, rfl⟩, _, _, ⟨minor, after, digit, ahead', rfl, rfl⟩,
      ⟨status, start, reason⟩, _, read, rfl, rfl⟩ := got
    obtain ⟨text, ending, rest, ended, ahead'', rfl, rfl, rfl, rfl⟩ := statusText_got.mp read
    dsimp only at ahead' ahead''
    refine ⟨⟨⟨blanks, minor, breaks, digit⟩, text, ending, ended⟩, rest, ?_, ?_, ?_⟩
    · rw [ahead, ahead', ahead'']
      simp [StatusLine.bytes, StatusStart.front]
    · simp [StatusLine.bytes, StatusStart.front]
    · simp [StatusLine.head, StatusStart.front, Nat.add_assoc]
  · rintro ⟨⟨⟨blanks, minor, breaks, digit⟩, text, ending, ended⟩, rest, ahead, rfl, rfl⟩
    dsimp only [StatusLine.bytes, StatusStart.front] at ahead
    simp only [append_assoc, cons_append, nil_append] at ahead
    simp only [bind_got, span_got, statusVersion_got, pure_apply, Outcome.got.injEq]
    refine ⟨blanks, _, ⟨72, _, ahead, breaks, by decide, rfl⟩, _, _,
      ⟨minor, _, digit, rfl, rfl, rfl⟩, (statusValue text.code, _, text.reason), _,
      statusText_got.mpr ⟨text, ending, rest, ended, rfl, rfl, rfl, rfl, rfl⟩, ?_, ?_⟩
    · simp [StatusLine.head, StatusStart.front, Nat.add_assoc]
    · simp [StatusLine.bytes, StatusStart.front]

theorem statusLine_starved_none {head : ResponseHead} : statusLine head c = .starved none ↔
    (∀ x ∈ c.ahead, isBreak x = true) ∨ ∃ (start : StatusStart) (rest : Bytes), c.ahead = start.front ++ rest ∧
        (rest.length < 3 ∨ ∃ text : StatusText, rest = text.bytes ++ [cCR]) := by
  unfold statusLine
  simp only [bind_starved, span_starved, span_got, statusVersion_got,
    statusText_starved_none, pure_apply, reduceCtorEq, and_false, and_true, exists_false,
    or_false]
  constructor
  · rintro (all | ⟨blanks, _, ⟨first, tail, ahead, breaks, -, rfl⟩, limit | ⟨_, _,
      ⟨minor, after, digit, ahead', rfl, rfl⟩, waits⟩⟩)
    · exact .inl all
    · cases statusVersion_starved limit
    · right
      dsimp only at ahead' waits
      refine ⟨⟨blanks, minor, breaks, digit⟩, after, ?_, waits⟩
      rw [ahead, ahead']
      simp [StatusStart.front]
  · rintro (all | ⟨⟨blanks, minor, breaks, digit⟩, rest, ahead, waits⟩)
    · exact .inl all
    · right
      dsimp only [StatusStart.front] at ahead
      simp only [append_assoc, cons_append, nil_append] at ahead
      exact ⟨blanks, _, ⟨72, _, ahead, breaks, by decide, rfl⟩, Or.inr ⟨_, _,
        ⟨minor, rest, digit, rfl, rfl, rfl⟩, waits⟩⟩

end StatusLine

/-- A buffer that starts with a response head that is accepted. -/
structure AcceptedResponse (maxHeadSize maxHeaders : Int) (head : ResponseHead) (b : Bytes)
    (line : StatusLine) (lines : List Line) (ending rest : Bytes) (last : ResponseFraming) :
    Prop where
  whole : b = line.bytes ++ (linesBytes lines ++ (ending ++ rest))
  ended : IsLineEnd ending
  accepted : Accepted maxHeadSize maxHeaders frameResponse line.bytes.length 0
    (line.head head 0).framing lines last
  framed : (last.isChunked && last.sawContentLength) = false

section Whole
variable {maxHeadSize maxHeaders : Int} {head head' : ResponseHead} {b : Bytes}
  {headers : List HeaderRef}

theorem statusLine_first (head : ResponseHead) :
    FirstLine (statusLine head) StatusLine.bytes (·.head head 0) fun _ _ => True :=
  ⟨incremental_statusLine head, by simp [statusLine_got]⟩

theorem responseHead_end : HeadEnd (fun (head : ResponseHead) last => do
      Scanner.refuseIf (last.1.isChunked && last.1.sawContentLength) .conflictingFraming
      let headEnd ← Scanner.position
      return (head.finish last.1 last.2.length headEnd, last.2))
    (fun _ last => (last.isChunked && last.sawContentLength) = false ∧ True) finish :=
  (HeadEnd.finished finish).refuse (fun _ last => last.isChunked && last.sawContentLength) _

theorem scans_response (maxHeadSize maxHeaders : Int) (head : ResponseHead) :
    Scans maxHeadSize (fun b => HTTPResponseParser.parse b maxHeadSize maxHeaders head)
      (fun n => responseHead maxHeadSize maxHeaders n head) headEnd :=
  scans_headScan (statusLine_first head) responseHead_end fun _ _ _ _ => rfl

theorem HTTPResponseParser.parse_complete :
    HTTPResponseParser.parse b maxHeadSize maxHeaders head = .complete head' headers ↔ ∃ line lines ending rest last,
        AcceptedResponse maxHeadSize maxHeaders head b line lines ending rest last ∧
        head' = (line.head head 0).finish last lines.length (line.bytes ++ (linesBytes lines ++ ending)).length ∧
        headers = (located line.bytes.length lines).map Field.ref := by
  have got := @headScan_got _ _ _ maxHeadSize maxHeaders _ _ _ _ frameResponse framing _ _ _ _ b
    (statusLine_first head) responseHead_end (Nat.lt_succ_self _) (head', headers)
  refine conclude_complete.trans ((exists_congr fun c' => got).trans ?_)
  constructor
  · rintro ⟨_, line, lines, ending, rest, last, whole, ended, -, accepted, ⟨framed, -⟩, -, result⟩
    exact ⟨line, lines, ending, rest, last, ⟨whole, ended, accepted, framed⟩, Prod.mk.inj result⟩
  · rintro ⟨line, lines, ending, rest, last, ⟨whole, ended, accepted, framed⟩, rfl, rfl⟩
    exact ⟨_, line, lines, ending, rest, last, whole, ended, trivial, accepted, ⟨framed, trivial⟩, rfl, rfl⟩

/-- What a buffer holds in which the response parser waits, however large it is. -/
inductive UnendedResponse (maxHeadSize maxHeaders : Int) (head : ResponseHead) : Bytes → Prop
  | blanks {b : Bytes} (breaks : ∀ c ∈ b, isBreak c = true) :
      UnendedResponse maxHeadSize maxHeaders head b
  | status (start : StatusStart) (rest : Bytes) (short : rest.length < 3) :
      UnendedResponse maxHeadSize maxHeaders head (start.front ++ rest)
  | reason (start : StatusStart) (text : StatusText) :
      UnendedResponse maxHeadSize maxHeaders head (start.front ++ (text.bytes ++ [cCR]))
  | field (line : StatusLine) (lines : List Line) (part : Bytes) (last : ResponseFraming)
      (accepted : Accepted maxHeadSize maxHeaders frameResponse line.bytes.length 0
        (line.head head 0).framing lines last)
      (unended : Unended part) :
      UnendedResponse maxHeadSize maxHeaders head (line.bytes ++ (linesBytes lines ++ part))

theorem responseHead_starved_none {fuel : Nat} (enough : b.length < fuel) :
    responseHead maxHeadSize maxHeaders fuel head ⟨[], b⟩ = .starved none ↔
      UnendedResponse maxHeadSize maxHeaders head b := by
  refine (headScan_starved_none (statusLine_first head) responseHead_end enough).trans ?_
  rw [statusLine_starved_none]
  constructor
  · rintro ((breaks | ⟨start, rest, rfl, short | ⟨text, rfl⟩⟩) | ⟨line, lines, part, last, rfl, -, accepted, unended⟩)
    · exact .blanks breaks
    · exact .status start rest short
    · exact .reason start text
    · exact .field line lines part last accepted unended
  · intro unended
    cases unended with
    | blanks breaks => exact .inl (Or.inl breaks)
    | status start rest short => exact .inl (Or.inr ⟨start, rest, rfl, Or.inl short⟩)
    | reason start text => exact .inl (Or.inr ⟨start, _, rfl, Or.inr ⟨text, rfl⟩⟩)
    | field line lines part last accepted unended =>
      exact .inr ⟨line, lines, part, last, rfl, trivial, accepted, unended⟩

end Whole

end AvianCore.Http
