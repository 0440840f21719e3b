import AvianCore.Http.TextLines
import AvianCore.Http.Values

/-!
What an accepted head says about its body and its connection. A request is framed by one length or by
the chunked coding and never by both, whatever fields it has and in whatever order.
-/

namespace AvianCore.Http
open List Http.Field Bool

variable {field : Field}

theorem Field.isNamed_other {a b : String} (named : field.isNamed a = true) (differs : ascii a ≠ ascii b) :
    field.isNamed b = false := by
  simp only [isNamed, equalsLowercased, decide_eq_true_eq] at named
  simp only [isNamed, equalsLowercased, decide_eq_false_iff_not]
  rw [named]
  exact differs

/-- A field of another name frames nothing. -/
theorem Field.unframed {a : String} (named : field.isNamed a = true) (apart : ascii a ≠ ascii "connection" ∧
      ascii a ≠ ascii "content-length" ∧ ascii a ≠ ascii "transfer-encoding") :
    field.isNamed "connection" = false ∧ field.isNamed "content-length" = false ∧
      field.isNamed "transfer-encoding" = false :=
  ⟨isNamed_other named apart.1, isNamed_other named apart.2.1, isNamed_other named apart.2.2⟩

def connectionAfter (contains : Bytes → Bytes → Bool) (keepAlive : Bool) (field : Field) : Bool :=
  if field.isNamed "connection" then
    if contains field.value (ascii "close") then false
    else if contains field.value (ascii "keep-alive") then true
    else keepAlive
  else keepAlive

/-- What a field of a request changes. -/
structure FramesRequest (seen : RequestFraming) (field : Field) (next : RequestFraming) : Prop where
  host : next.flags.hasHost = (seen.flags.hasHost || field.isNamed "host")
  alone : field.isNamed "host" = true → seen.flags.hasHost = false
  keepAlive : next.keepAlive = connectionAfter containsTokenLowercased seen.keepAlive field
  length : next.sawContentLength = (seen.sawContentLength || field.isNamed "content-length")
  agrees : field.isNamed "content-length" = true → 0 ≤ parseDecimal field.value ∧
    next.contentLength = parseDecimal field.value ∧
    (seen.sawContentLength = true → seen.contentLength = parseDecimal field.value)
  stays : field.isNamed "content-length" = false → next.contentLength = seen.contentLength
  coded : next.sawTransferEncoding = (seen.sawTransferEncoding || field.isNamed "transfer-encoding")
  first : field.isNamed "transfer-encoding" = true →
    seen.sawTransferEncoding = false ∧ codings field.value = [ascii "chunked"]
  chunked : next.chunked = (seen.chunked || field.isNamed "transfer-encoding")
  others : next.flags.chunked = seen.flags.chunked ∧
    next.flags.hasContentLength = seen.flags.hasContentLength ∧
    next.flags.keepAlive = seen.flags.keepAlive

theorem FramesRequest.of_other {seen : RequestFraming} {flags : RequestFlags} (host : field.isNamed "host" = false)
    (connection : field.isNamed "connection" = false) (length : field.isNamed "content-length" = false)
    (coding : field.isNamed "transfer-encoding" = false)
    (same : flags.hasHost = seen.flags.hasHost ∧ flags.chunked = seen.flags.chunked ∧
      flags.hasContentLength = seen.flags.hasContentLength ∧ flags.keepAlive = seen.flags.keepAlive) :
    FramesRequest seen field { seen with flags := flags } where
  host := by simp [host, same]
  alone named := by simp [host] at named
  keepAlive := by simp [connectionAfter, connection]
  length := by simp [length]
  agrees named := by simp [length] at named
  stays _ := rfl
  coded := by simp [coding]
  first named := by simp [coding] at named
  chunked := by simp [coding]
  others := same.2

theorem framesRequest {seen next : RequestFraming} (framed : frameRequest seen field = .ok next) :
    FramesRequest seen field next := by
  unfold frameRequest at framed
  by_cases host : field.isNamed "host" = true
  · obtain ⟨connection, length, coding⟩ := unframed host (by decide)
    rw [if_pos host] at framed
    split at framed
    case isTrue => cases framed
    case isFalse fresh =>
      cases framed
      refine ⟨by simp [host], fun _ => by simpa using fresh, by simp [connectionAfter, connection],
        by simp [length], fun named => ?_, fun _ => rfl, by simp [coding], fun named => ?_,
        by simp [coding], rfl, rfl, rfl⟩
      · simp [length] at named
      · simp [coding] at named
  rw [if_neg host] at framed
  rw [not_eq_true] at host
  by_cases expect : field.isNamed "expect" = true
  · obtain ⟨connection, length, coding⟩ := unframed expect (by decide)
    rw [if_pos expect] at framed
    split at framed
    · cases framed
      exact .of_other host connection length coding ⟨rfl, rfl, rfl, rfl⟩
    · cases framed
      exact .of_other host connection length coding ⟨rfl, rfl, rfl, rfl⟩
  rw [if_neg expect] at framed
  by_cases upgrade : field.isNamed "upgrade" = true
  · obtain ⟨connection, length, coding⟩ := unframed upgrade (by decide)
    rw [if_pos upgrade] at framed
    cases framed
    exact .of_other host connection length coding ⟨rfl, rfl, rfl, rfl⟩
  rw [if_neg upgrade] at framed
  by_cases connection : field.isNamed "connection" = true
  · have length := isNamed_other connection (by decide : ascii "connection" ≠ ascii "content-length")
    have coding := isNamed_other connection (by decide : ascii "connection" ≠ ascii "transfer-encoding")
    rw [if_pos connection] at framed
    have kept : next = { seen with
        keepAlive := connectionAfter containsTokenLowercased seen.keepAlive field } := by
      unfold connectionAfter
      rw [if_pos connection]
      split at framed
      case isTrue close =>
        cases framed
        rw [if_pos close]
      case isFalse close =>
        rw [if_neg close]
        split at framed
        case isTrue keep =>
          cases framed
          rw [if_pos keep]
        case isFalse keep =>
          cases framed
          rw [if_neg keep]
    subst kept
    refine ⟨by simp [host], fun named => ?_, rfl, by simp [length], fun named => ?_, fun _ => rfl,
      by simp [coding], fun named => ?_, by simp [coding], rfl, rfl, rfl⟩
    · simp [host] at named
    · simp [length] at named
    · simp [coding] at named
  rw [if_neg connection] at framed
  rw [not_eq_true] at connection
  by_cases length : field.isNamed "content-length" = true
  · have coding := isNamed_other length (by decide : ascii "content-length" ≠ ascii "transfer-encoding")
    rw [if_pos length] at framed
    dsimp only at framed
    split at framed
    case isTrue => cases framed
    case isFalse positive =>
      split at framed
      case isTrue => cases framed
      case isFalse agrees =>
        cases framed
        refine ⟨by simp [host], fun named => ?_, by simp [connectionAfter, connection],
          by simp [length], fun _ => ⟨by omega, rfl, fun saw => ?_⟩, fun named => ?_, by simp [coding],
          fun named => ?_, by simp [coding], rfl, rfl, rfl⟩
        · simp [host] at named
        · by_contra differs
          exact agrees ⟨saw, differs⟩
        · simp [length] at named
        · simp [coding] at named
  rw [if_neg length] at framed
  rw [not_eq_true] at length
  by_cases coding : field.isNamed "transfer-encoding" = true
  · rw [if_pos coding] at framed
    split at framed
    case isTrue => cases framed
    case isFalse fresh =>
      cases check : checkTransferEncoding field.value with
      | some e =>
        rw [check] at framed
        cases framed
      | none =>
        rw [check] at framed
        cases framed
        refine ⟨by simp [host], fun named => ?_, by simp [connectionAfter, connection],
          by simp [length], fun named => ?_, fun _ => rfl, by simp [coding],
          fun _ => ⟨by simpa using fresh, checkTransferEncoding_none.mp check⟩, by simp [coding], rfl,
          rfl, rfl⟩
        · simp [host] at named
        · simp [length] at named
  rw [if_neg coding] at framed
  rw [not_eq_true] at coding
  cases framed
  exact .of_other host connection length coding ⟨rfl, rfl, rfl, rfl⟩

def valuesOf (name : String) (fields : List Field) : List Bytes :=
  (fields.filter fun field => field.isNamed name).map value

/-- What the fields of a request come to, as a whole. -/
structure FramedBy (start : RequestFraming) (fields : List Field) (last : RequestFraming) : Prop where
  host : last.flags.hasHost = true ↔ valuesOf "host" fields ≠ []
  alone : (valuesOf "host" fields).length ≤ 1
  keepAlive : last.keepAlive = fields.foldl (connectionAfter containsTokenLowercased) start.keepAlive
  length : last.sawContentLength = true ↔ valuesOf "content-length" fields ≠ []
  agrees : ∀ value ∈ valuesOf "content-length" fields,
    0 ≤ parseDecimal value ∧ last.contentLength = parseDecimal value
  coded : last.sawTransferEncoding = true ↔ valuesOf "transfer-encoding" fields ≠ []
  single : valuesOf "transfer-encoding" fields = [] ∨
    ∃ value, valuesOf "transfer-encoding" fields = [value] ∧ codings value = [ascii "chunked"]
  chunked : last.chunked = last.sawTransferEncoding
  others : last.flags.chunked = start.flags.chunked ∧
    last.flags.hasContentLength = start.flags.hasContentLength ∧
    last.flags.keepAlive = start.flags.keepAlive

theorem valuesOf_concat (name : String) (fields : List Field) (field : Field) : valuesOf name (fields ++ [field]) =
    valuesOf name fields ++ if field.isNamed name then [field.value] else [] := by
  unfold valuesOf
  rw [filter_append, map_append]
  cases named : field.isNamed name with
  | true | false => simp [named]

variable {fields : List Field}

theorem FramedBy.concat {start seen next : RequestFraming} (framed : FramedBy start fields seen)
    (step : FramesRequest seen field next) :
    FramedBy start (fields ++ [field]) next := by
  constructor
  · rw [step.host, valuesOf_concat, or_eq_true, framed.host]
    cases named : field.isNamed "host" with
    | true | false => simp
  · rw [valuesOf_concat]
    cases named : field.isNamed "host" with
    | true =>
      have none : valuesOf "host" fields = [] := by
        by_contra some
        have fresh := step.alone named
        rw [framed.host.mpr some] at fresh
        cases fresh
      simp [none]
    | false => simpa using framed.alone
  · rw [step.keepAlive, framed.keepAlive, foldl_append]
    rfl
  · rw [step.length, valuesOf_concat, or_eq_true, framed.length]
    cases named : field.isNamed "content-length" with
    | true | false => simp
  · intro value member
    rw [valuesOf_concat] at member
    cases named : field.isNamed "content-length" with
    | true =>
      obtain ⟨positive, same, before⟩ := step.agrees named
      rw [named, if_pos rfl] at member
      rcases mem_append.mp member with earlier | last
      · obtain ⟨positive', same'⟩ := framed.agrees value earlier
        have saw := framed.length.mpr (ne_nil_of_mem earlier)
        rw [same, ← before saw]
        exact ⟨positive', same'⟩
      · rw [mem_singleton] at last
        rw [last]
        exact ⟨positive, same⟩
    | false =>
      rw [step.stays named]
      rw [named, if_neg (by simp), append_nil] at member
      exact framed.agrees value member
  · rw [step.coded, valuesOf_concat, or_eq_true, framed.coded]
    cases named : field.isNamed "transfer-encoding" with
    | true | false => simp
  · rw [valuesOf_concat]
    cases named : field.isNamed "transfer-encoding" with
    | true =>
      obtain ⟨fresh, coding⟩ := step.first named
      have none : valuesOf "transfer-encoding" fields = [] := by
        by_contra some
        rw [framed.coded.mpr some] at fresh
        cases fresh
      right
      exact ⟨field.value, by simp [none], coding⟩
    | false => simpa using framed.single
  · rw [step.chunked, step.coded, framed.chunked]
  · obtain ⟨chunked, length, keep⟩ := step.others
    rw [chunked, length, keep]
    exact framed.others

theorem framedBy {start last : RequestFraming} (fresh : start.flags.hasHost = false ∧ start.sawContentLength = false ∧
      start.sawTransferEncoding = false ∧ start.chunked = false) (run : fields.foldlM frameRequest start = .ok last) :
    FramedBy start fields last := by
  induction fields using List.reverseRecOn generalizing last with
  | nil =>
    cases run
    obtain ⟨host, length, coding, chunked⟩ := fresh
    refine ⟨?_, ?_, rfl, ?_, ?_, ?_, Or.inl rfl, ?_, rfl, rfl, rfl⟩
    · simp [host, valuesOf]
    · simp [valuesOf]
    · simp [length, valuesOf]
    · simp [valuesOf]
    · simp [coding, valuesOf]
    · rw [chunked, coding]
  | append_singleton fields field ih =>
    rw [foldlM_append] at run
    cases before : fields.foldlM frameRequest start with
    | error e =>
      rw [before] at run
      cases run
    | ok seen =>
      rw [before] at run
      change [field].foldlM frameRequest seen = .ok last at run
      obtain ⟨next, step, rest⟩ := foldlM_cons_ok.mp run
      cases rest
      exact (ih before).concat (framesRequest step)

def Field.places (field : Field) : (Nat × Nat) × (Nat × Nat) :=
  ((field.nameStart, field.name.length), (field.valueStart, field.value.length))

def HeaderRef.places (ref : HeaderRef) : (Nat × Nat) × (Nat × Nat) :=
  ((ref.name.offset.toNat, ref.name.length.toNat), (ref.value.offset.toNat, ref.value.length.toNat))

theorem Line.value_prefix (line : Line) : ∃ trail, line.run = line.value ++ trail := by
  obtain ⟨trail, split, -⟩ := rdropWhile_suffix isBlank line.run
  exact ⟨trail, split⟩

theorem take_drop_middle (before middle after : Bytes) {n : Nat} (place : n = before.length) :
    ((before ++ (middle ++ after)).drop n).take middle.length = middle := by
  rw [place, drop_left, take_left]

variable {lines : List Line}

theorem located_text {b front more : Bytes} (whole : b = front ++ (linesBytes lines ++ more))
    (member : field ∈ located front.length lines) :
    (b.drop field.nameStart).take field.name.length = field.name ∧
      (b.drop field.valueStart).take field.value.length = field.value ∧
      field.nameStart + field.name.length ≤ front.length + (linesBytes lines).length ∧
      field.valueStart + field.value.length ≤ front.length + (linesBytes lines).length := by
  induction lines generalizing front with
  | nil => cases member
  | cons line lines ih =>
    rw [linesBytes_cons] at whole ⊢
    rcases mem_cons.mp member with rfl | later
    · obtain ⟨trail, run⟩ := line.value_prefix
      have here : b = front ++ (line.name ++ (cColon :: (line.space ++ (line.run ++ line.ending)) ++
          (linesBytes lines ++ more))) := by
        rw [whole]
        simp [Line.bytes]
      have there : b = (front ++ (line.name ++ cColon :: line.space)) ++ (line.value ++
          (trail ++ (line.ending ++ (linesBytes lines ++ more)))) := by
        rw [whole, Line.bytes, run]
        simp
      have size : line.bytes.length = line.name.length + 1 + line.space.length +
          (line.value.length + trail.length) + line.ending.length := by
        rw [Line.bytes, run]
        simp only [length_append, length_cons]
        omega
      refine ⟨?_, ?_, ?_, ?_⟩
      · rw [here]
        exact take_drop_middle _ _ _ rfl
      · rw [there]
        apply take_drop_middle
        simp only [Line.field, length_append, length_cons]
        omega
      · simp only [Line.field, length_append, size]
        omega
      · simp only [Line.field, length_append, size]
        omega
    · have next : b = (front ++ line.bytes) ++ (linesBytes lines ++ more) := by
        rw [whole]
        simp
      rw [← length_append] at later
      obtain ⟨name, value, nameEnd, valueEnd⟩ := ih next later
      rw [length_append] at nameEnd valueEnd
      rw [length_append]
      exact ⟨name, value, by omega, by omega⟩

theorem located_value {start : Nat} (member : field ∈ located start lines) :
    ∀ c ∈ field.value, isFieldValueChar c = true := by
  induction lines generalizing start with
  | nil => cases member
  | cons line lines ih =>
    rcases mem_cons.mp member with rfl | later
    · intro c inside
      obtain ⟨trail, run⟩ := line.value_prefix
      apply line.proper c
      rw [run]
      exact mem_append_left _ inside
    · exact ih later

theorem ref_places (name : field.nameStart + field.name.length < 2 ^ 32)
    (value : field.valueStart + field.value.length < 2 ^ 32) :
    field.ref.places = field.places := by
  have exact32 : ∀ n, n < 2 ^ 32 → (UInt32.ofNat n).toNat = n := by
    intro n fits
    rw [UInt32.toNat_ofNat', Nat.mod_eq_of_lt fits]
  unfold ref HeaderRef.places Field.places Slice.of
  dsimp only
  rw [exact32 _ (by omega), exact32 _ (by omega), exact32 _ (by omega), exact32 _ (by omega)]

theorem HeaderRef.text_of_places {ref : HeaderRef} (b : Bytes) (places : ref.places = field.places)
    (name : (b.drop field.nameStart).take field.name.length = field.name)
    (value : (b.drop field.valueStart).take field.value.length = field.value) :
    (ref.name.text b, ref.value.text b) = (field.name, field.value) := by
  simp only [HeaderRef.places, Field.places, Prod.mk.injEq] at places
  obtain ⟨⟨nameStart, nameLength⟩, valueStart, valueLength⟩ := places
  unfold Slice.text
  rw [nameStart, nameLength, valueStart, valueLength, name, value]

theorem map_located (start : Nat) (lines : List Line) :
    ((located start lines).map fun field => (field.name, field.value)) =
      lines.map fun line => (line.name, line.value) := by
  induction lines generalizing start with
  | nil => rfl
  | cons line rest ih =>
    rw [located, map_cons, map_cons, ih]
    rfl

theorem located_refs {b front more : Bytes} (whole : b = front ++ (linesBytes lines ++ more))
    (size : front.length + (linesBytes lines).length < 2 ^ 32) :
    ((located front.length lines).map ref).map HeaderRef.places = (located front.length lines).map Field.places ∧
      (((located front.length lines).map ref).map fun ref =>
        (ref.name.text b, ref.value.text b)) =
          (located front.length lines).map fun field => (field.name, field.value) := by
  rw [map_map, map_map]
  constructor
  · apply map_congr_left
    intro field member
    obtain ⟨-, -, nameEnd, valueEnd⟩ := located_text whole member
    exact ref_places (by omega) (by omega)
  · apply map_congr_left
    intro field member
    obtain ⟨name, value, nameEnd, valueEnd⟩ := located_text whole member
    exact HeaderRef.text_of_places b (ref_places (by omega) (by omega)) name value

theorem RequestLine.head_flags (line : RequestLine) :
    (line.head {} []).flags.hasHost = false ∧ (line.head {} []).flags.chunked = false ∧
      (line.head {} []).flags.hasContentLength = false ∧
      (line.head {} []).flags.keepAlive = false := by
  simp only [RequestLine.head, RequestHead.locate]
  split <;> split <;> exact ⟨rfl, rfl, rfl, rfl⟩

theorem RequestLine.framing_fresh (line : RequestLine) : (line.head {} []).framing.flags.hasHost = false ∧
    (line.head {} []).framing.sawContentLength = false ∧ (line.head {} []).framing.sawTransferEncoding = false ∧
    (line.head {} []).framing.chunked = false :=
  ⟨line.head_flags.1, rfl, rfl, rfl⟩

/-- A request head that can be read in one way only. -/
structure Unambiguous (b : Bytes) (head : RequestHead) (headers : List HeaderRef) : Prop where
  oneFraming : ¬ (head.flags.chunked = true ∧ head.flags.hasContentLength = true)
  chunked : head.flags.chunked = true ↔
    ∃ value, valuesOf "transfer-encoding" (headFields b) = [value] ∧ codings value = [ascii "chunked"]
  hasLength : head.flags.hasContentLength = true ↔ valuesOf "content-length" (headFields b) ≠ []
  length : ∀ value ∈ valuesOf "content-length" (headFields b),
    IsDecimal value ∧ (decimalValue value : Int) = head.contentLength
  bounded : head.contentLength < 2 ^ 63
  endless : head.flags.chunked = true → head.contentLength = -1
  bodiless : head.flags.chunked = false → head.flags.hasContentLength = false → head.contentLength = 0
  version : head.httpMinor = 0 ∨ head.httpMinor = 1
  oneHost : (valuesOf "host" (headFields b)).length ≤ 1
  host : head.httpMinor = 1 → (valuesOf "host" (headFields b)).length = 1
  names : ∀ line ∈ headLines b, ∃ name rest, line.2 = name ++ cColon :: rest ∧ name ≠ [] ∧
    ∀ c ∈ name, isTokenChar c = true
  values : ∀ field ∈ headFields b,
    cCR ∉ field.value ∧ cLF ∉ field.value ∧ 0 ∉ field.value ∧ 0x7F ∉ field.value
  count : head.headerCount = (headFields b).length
  places : headers.map HeaderRef.places = (headFields b).map Field.places
  texts : (headers.map fun ref => (ref.name.text b, ref.value.text b)) =
    (headFields b).map fun field => (field.name, field.value)

/-- Every request head that is accepted is framed in one way. -/
theorem parse_unambiguous {b : Bytes} {maxHeadSize maxHeaders : Int} {head : RequestHead}
    {headers : List HeaderRef} (limit : maxHeadSize < 2 ^ 31)
    (complete : HTTPParser.parse b maxHeadSize maxHeaders {} = .complete head headers) :
    Unambiguous b head headers := by
  obtain ⟨line, lines, ending, rest, last, ⟨whole, ended, small, accepted, framed, hosted⟩, rfl, rfl⟩ :=
    HTTPParser.parse_complete.mp complete
  obtain ⟨fields, texts⟩ := line.headFields whole ended
  have minor : (line.head {} []).httpMinor = 0 ∨ (line.head {} []).httpMinor = 1 := by
    rcases line.version with zero | one
    · left
      show line.minor - 48 = 0
      rw [zero]
      decide
    right
    show line.minor - 48 = 1
    rw [one]
    decide
  have flags := line.head_flags
  have sums := framedBy line.framing_fresh accepted.framed
  rw [← fields] at sums
  obtain ⟨cleanChunked, cleanLength, -⟩ := sums.others
  have chunked : ((line.head {} []).finish last lines.length
      (line.bytes ++ (linesBytes lines ++ ending)).length).flags.chunked = last.chunked := by
    show (last.flags.chunked || last.chunked) = last.chunked
    rw [cleanChunked]
    show ((line.head {} []).flags.chunked || last.chunked) = last.chunked
    rw [flags.2.1, Bool.false_or]
  have hasLength : ((line.head {} []).finish last lines.length
      (line.bytes ++ (linesBytes lines ++ ending)).length).flags.hasContentLength =
        last.sawContentLength := by
    show (last.flags.hasContentLength || last.sawContentLength) = last.sawContentLength
    rw [cleanLength]
    show ((line.head {} []).flags.hasContentLength || last.sawContentLength) = last.sawContentLength
    rw [flags.2.2.1, Bool.false_or]
  have contentLength : ((line.head {} []).finish last lines.length
      (line.bytes ++ (linesBytes lines ++ ending)).length).contentLength =
        if last.sawContentLength then last.contentLength else if last.chunked then -1 else 0 := rfl
  have inside := accepted.inside
  obtain ⟨places, words⟩ := located_refs whole (by omega)
  constructor
  · rw [chunked, hasLength]
    rintro ⟨coded, sized⟩
    rw [coded, sized] at framed
    cases framed
  · rw [chunked, sums.chunked, sums.coded]
    constructor
    · intro some
      rcases sums.single with none | single
      · exact absurd none some
      · exact single
    · rintro ⟨value, single, -⟩
      rw [single]
      exact List.cons_ne_nil _ _
  · rw [hasLength, sums.length]
  · intro value member
    obtain ⟨positive, same⟩ := sums.agrees value member
    obtain ⟨decimal, -, denotes⟩ := parseDecimal_nonneg positive
    rw [contentLength, if_pos (sums.length.mpr (List.ne_nil_of_mem member)), same, denotes]
    exact ⟨decimal, rfl⟩
  · rw [contentLength]
    by_cases saw : last.sawContentLength = true
    · rw [if_pos saw]
      obtain ⟨value, member⟩ := List.exists_mem_of_ne_nil _ (sums.length.mp saw)
      obtain ⟨positive, same⟩ := sums.agrees value member
      obtain ⟨-, bounded, denotes⟩ := parseDecimal_nonneg positive
      rw [same, denotes]
      exact_mod_cast bounded
    rw [if_neg saw]
    split <;> decide
  · rw [chunked, contentLength]
    intro coded
    have unsized : last.sawContentLength = false := by
      rw [coded, Bool.true_and] at framed
      exact framed
    rw [unsized, coded]
    rfl
  · rw [chunked, hasLength, contentLength]
    intro uncoded unsized
    rw [uncoded, unsized]
    rfl
  · exact minor
  · exact sums.alone
  · intro one
    have named : last.flags.hasHost = true := by
      rw [show (line.head {} []).httpMinor = 1 from one] at hosted
      simpa using hosted
    have some := List.length_pos_iff.mpr (sums.host.mp named)
    have alone := sums.alone
    omega
  · intro text member
    obtain ⟨line', -, same⟩ := texts text member
    exact ⟨line'.name, _, same, line'.named, line'.token⟩
  · intro field member
    rw [fields] at member
    have proper := located_value member
    refine ⟨?_, ?_, ?_, ?_⟩ <;>
    · intro inside
      exact absurd (proper _ inside) (by decide)
  · rw [fields, length_located]
    rfl
  · rw [fields]
    exact places
  · rw [fields]
    exact words

def sizedRequest : Bytes := ascii "POST /a HTTP/1.1\r\nHost: b\r\nContent-Length: 12\r\ncontent-length:12\r\n\r\n"

theorem parse_unambiguous_sized : ∃ head headers, HTTPParser.parse sizedRequest 8192 100 {} = .complete head headers ∧
      Unambiguous sizedRequest head headers := by
  have accepted : (match HTTPParser.parse sizedRequest 8192 100 {} with
      | .complete _ _ => true
      | _ => false) = true := by decide +kernel
  cases parsed : HTTPParser.parse sizedRequest 8192 100 {} with
  | complete head headers => exact ⟨head, headers, rfl, parse_unambiguous (by decide) parsed⟩
  | incomplete =>
    rw [parsed] at accepted
    cases accepted
  | failure e =>
    rw [parsed] at accepted
    cases accepted

section Connection
variable {contains : Bytes → Bytes → Bool} {keepAlive : Bool} {fields : List Field}

/-- A field that asks for the connection to be closed, whatever else it lists. -/
def Field.closes (field : Field) : Prop := field.isNamed "connection" = true ∧ Lists field.value (ascii "close")

/-- Behind a field that lists `close` there is one that lists `keep-alive` without it, and no other
with `close` after that. -/
def Reopened (contains : Bytes → Bytes → Bool) (fields : List Field) : Prop :=
  ∃ before field after, fields = before ++ field :: after ∧ (∃ other ∈ before, other.closes) ∧
    field.isNamed "connection" = true ∧ contains field.value (ascii "close") = false ∧
    contains field.value (ascii "keep-alive") = true ∧
    ∀ other ∈ after, other.isNamed "connection" = true → contains other.value (ascii "close") = false

theorem foldl_connectionAfter_true (none : ∀ field ∈ fields, field.isNamed "connection" = true →
    contains field.value (ascii "close") = false) :
    fields.foldl (connectionAfter contains) true = true := by
  induction fields with
  | nil => rfl
  | cons field rest ih =>
    have stays : connectionAfter contains true field = true := by
      unfold connectionAfter
      by_cases named : field.isNamed "connection" = true
      · rw [if_pos named, none field mem_cons_self named]
        simp
      · rw [if_neg named]
    rw [foldl_cons, stays]
    exact ih fun other member => none other (mem_cons_of_mem _ member)

theorem foldl_connectionAfter_kept (kept : fields.foldl (connectionAfter contains) false = true) :
    ∃ before field after, fields = before ++ field :: after ∧ field.isNamed "connection" = true ∧
      contains field.value (ascii "close") = false ∧
      contains field.value (ascii "keep-alive") = true ∧
      ∀ other ∈ after, other.isNamed "connection" = true → contains other.value (ascii "close") = false := by
  induction fields using List.reverseRecOn with
  | nil => cases kept
  | append_singleton fields field ih =>
    rw [foldl_append, foldl_cons, foldl_nil] at kept
    have mild : field.isNamed "connection" = true → contains field.value (ascii "close") = false := by
      intro named
      by_contra close
      simp [connectionAfter, named, close] at kept
    by_cases keeps : field.isNamed "connection" = true ∧ contains field.value (ascii "keep-alive") = true
    · exact ⟨fields, field, [], rfl, keeps.1, mild keeps.1, keeps.2, nofun⟩
    have same : fields.foldl (connectionAfter contains) false = true := by
      unfold connectionAfter at kept
      split_ifs at kept with named close keep
      · exact absurd ⟨named, keep⟩ keeps
      all_goals exact kept
    obtain ⟨before, other, after, split, named', close', keep', none⟩ := ih same
    refine ⟨before, other, after ++ [field], by rw [split]; simp, named', close', keep', ?_⟩
    intro another member
    rcases mem_append.mp member with earlier | last
    · exact none another earlier
    rw [mem_singleton.mp last]
    exact mild

theorem closed_iff (finds : ∀ value, Lists value (ascii "close") → contains value (ascii "close") = true) :
    ((∃ field ∈ fields, field.closes) → fields.foldl (connectionAfter contains) keepAlive = false) ↔
      ¬ Reopened contains fields := by
  constructor
  · rintro closed ⟨before, field, after, rfl, ⟨other, member, closes⟩, named, close, keep, none⟩
    have kept : connectionAfter contains (before.foldl (connectionAfter contains) keepAlive) field = true := by
      simp [connectionAfter, named, close, keep]
    have final := closed ⟨other, mem_append_left _ member, closes⟩
    rw [foldl_append, foldl_cons, kept, foldl_connectionAfter_true none] at final
    cases final
  · rintro stays ⟨field, member, named, lists⟩
    obtain ⟨before, after, rfl⟩ := append_of_mem member
    have shut : connectionAfter contains (before.foldl (connectionAfter contains) keepAlive) field = false := by
      simp [connectionAfter, named, finds _ lists]
    rw [foldl_append, foldl_cons, shut]
    by_contra kept
    rw [not_eq_false] at kept
    obtain ⟨before', field', after', rfl, named', close', keep', none⟩ := foldl_connectionAfter_kept kept
    apply stays
    refine ⟨before ++ field :: before', field', after', by simp, ?_, named', close', keep', none⟩
    exact ⟨field, by simp, named, lists⟩

end Connection

theorem frameResponse_keepAlive {seen next : ResponseFraming} (framed : frameResponse seen field = .ok next) :
    next.keepAlive = connectionAfter containsToken seen.keepAlive field := by
  unfold frameResponse at framed
  unfold connectionAfter
  by_cases connection : field.isNamed "connection" = true
  · rw [if_pos connection] at framed ⊢
    split at framed
    case isTrue close =>
      cases framed
      rw [if_pos close]
    case isFalse close =>
      rw [if_neg close]
      split at framed
      case isTrue keep =>
        cases framed
        rw [if_pos keep]
      case isFalse keep =>
        cases framed
        rw [if_neg keep]
  · rw [if_neg connection] at framed ⊢
    split at framed
    · split at framed
      · cases framed
      split at framed
      · cases framed
      · cases framed
        rfl
    split at framed
    · split at framed
      · cases framed
      split at framed
      · cases framed
      · cases framed
        rfl
    · cases framed
      rfl

theorem foldlM_keepAlive {start last : ResponseFraming} (run : fields.foldlM frameResponse start = .ok last) :
    last.keepAlive = fields.foldl (connectionAfter containsToken) start.keepAlive := by
  induction fields generalizing start with
  | nil =>
    cases run
    rfl
  | cons field rest ih =>
    obtain ⟨next, step, further⟩ := foldlM_cons_ok.mp run
    rw [ih further, foldl_cons, frameResponse_keepAlive step]

/-- In an accepted head a connection that some field asks to close is closed, exactly when no later
field keeps it open again. -/
theorem connection_closed_iff (b : Bytes) (maxHeadSize maxHeaders : Int) :
    (∀ head headers, HTTPParser.parse b maxHeadSize maxHeaders {} = .complete head headers →
      (((∃ field ∈ headFields b, field.closes) → head.flags.keepAlive = false) ↔
        ¬ Reopened containsTokenLowercased (headFields b))) ∧
    ∀ head headers, HTTPResponseParser.parse b maxHeadSize maxHeaders {} = .complete head headers →
      (((∃ field ∈ headFields b, field.closes) → head.keepAlive = false) ↔
        ¬ Reopened containsToken (headFields b)) := by
  have some : ascii "close" ≠ [] := by decide
  constructor
  · intro head headers complete
    obtain ⟨line, lines, ending, rest, last, ⟨whole, ended, -, accepted, -, -⟩, rfl, rfl⟩ :=
      HTTPParser.parse_complete.mp complete
    have sums := framedBy line.framing_fresh accepted.framed
    rw [← (line.headFields whole ended).1] at sums
    have kept : ((line.head {} []).finish last lines.length
        (line.bytes ++ (linesBytes lines ++ ending)).length).flags.keepAlive = last.keepAlive := by
      show (last.flags.keepAlive || last.keepAlive) = last.keepAlive
      rw [sums.others.2.2]
      show ((line.head {} []).flags.keepAlive || last.keepAlive) = last.keepAlive
      rw [line.head_flags.2.2.2, Bool.false_or]
    rw [kept, sums.keepAlive]
    exact closed_iff fun value lists => containsTokenLowercased_of_lists some lists
  · intro head headers complete
    obtain ⟨line, lines, ending, rest, last, ⟨whole, ended, accepted, -⟩, rfl, rfl⟩ :=
      HTTPResponseParser.parse_complete.mp complete
    have kept := foldlM_keepAlive accepted.framed
    rw [← (line.headFields whole ended).1] at kept
    show ((∃ field ∈ headFields b, field.closes) → last.keepAlive = false) ↔ _
    rw [kept]
    exact closed_iff fun value lists => containsToken_of_lists some lists

/-- The last field closes the connection that the one before it kept. -/
def closingRequest : Bytes := ascii "GET / HTTP/1.1\r\nHost: a\r\nConnection: keep-alive\r\nConnection: Close\r\n\r\n"

theorem connection_closed_iff_closing :
    ∃ head headers, HTTPParser.parse closingRequest 8192 100 {} = .complete head headers ∧
      (((∃ field ∈ headFields closingRequest, field.closes) → head.flags.keepAlive = false) ↔
        ¬ Reopened containsTokenLowercased (headFields closingRequest)) := by
  have accepted : (match HTTPParser.parse closingRequest 8192 100 {} with
      | .complete _ _ => true
      | _ => false) = true := by decide +kernel
  cases parsed : HTTPParser.parse closingRequest 8192 100 {} with
  | complete head headers => exact ⟨head, headers, rfl, (connection_closed_iff _ _ _).1 head headers parsed⟩
  | incomplete =>
    rw [parsed] at accepted
    cases accepted
  | failure e =>
    rw [parsed] at accepted
    cases accepted

def reopenedRequest : Bytes := ascii "GET / HTTP/1.1\r\nHost: a\r\nConnection: close\r\nConnection: keep-alive\r\n\r\n"

def reopenedResponse : Bytes := ascii "HTTP/1.1 200 OK\r\nConnection: close\r\nConnection: keep-alive\r\n\r\n"

/-- A later field keeps the connection although an earlier one closes it. -/
theorem connection_reopened :
    (match HTTPParser.parse reopenedRequest 8192 100 {} with
      | .complete head _ => head.flags.keepAlive
      | _ => false) = true ∧
    (∃ field ∈ headFields reopenedRequest, field.closes) ∧
    (match HTTPResponseParser.parse reopenedResponse 8192 100 {} with
      | .complete head _ => head.keepAlive
      | _ => false) = true ∧
    ∃ field ∈ headFields reopenedResponse, field.closes := by
  have lists : Lists (ascii "close") (ascii "close") :=
    ⟨[], ascii "close", [], by simp, Or.inl rfl, Or.inl rfl, by decide +kernel, by decide +kernel⟩
  refine ⟨by decide +kernel, ⟨⟨25, ascii "Connection", 37, ascii "close"⟩, by decide +kernel,
    by decide +kernel, lists⟩, by decide +kernel, ⟨17, ascii "Connection", 29, ascii "close"⟩,
    by decide +kernel, by decide +kernel, lists⟩

end AvianCore.Http
