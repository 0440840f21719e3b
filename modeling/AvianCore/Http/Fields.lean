import AvianCore.Http.Head
import AvianCore.Lib.Scanner

/-!
The header fields of a head, which both parsers read alike: one line after another up to an empty one.
What a parser makes of a field is a parameter. The lines that are accepted are described by a grammar,
and so are the beginnings of a line at which a parser waits for more without looking at the limit.
-/

namespace AvianCore.Http
open AvianCore.Lib Scanner List
open Scanner (bind_got bind_starved refuseIf_got position_apply)

/-- A field, and where its name and its value start. -/
structure Field where
  nameStart : Nat
  name : Bytes
  valueStart : Nat
  value : Bytes
deriving DecidableEq, Repr

def Field.isNamed (field : Field) (literal : String) : Bool := equalsLowercased field.name (ascii literal)

def nameHash (name : Bytes) : UInt32 :=
  name.foldl (fun hash c => (hash ^^^ (asciiLower c).toUInt32) * 16777619) 2166136261

def Field.ref (field : Field) : HeaderRef :=
  ⟨.of field.nameStart field.name.length, .of field.valueStart field.value.length, nameHash field.name⟩

def lineEnd (e : ParseError) : Scanner UInt8 ParseError Unit := do
  let first ← Scanner.peek none
  if first = cCR then
    Scanner.symbol cCR e
    Scanner.symbol cLF e
  else Scanner.symbol cLF e

def fieldLine (nameStart : Nat) : Scanner UInt8 ParseError Field := do
  let name ← Scanner.span isTokenChar none
  Scanner.refuseIf (name.length = 0) .badHeader
  Scanner.symbol cColon .badHeader
  let _ ← Scanner.span isBlank none
  let valueStart ← Scanner.position
  let run ← Scanner.span isFieldValueChar (some .headTooLarge)
  lineEnd .badHeader
  return ⟨nameStart, name, valueStart, run.rdropWhile isBlank⟩

/-- One line of the head: a field, or `none` for the empty line. -/
def headerLine (maxHeadSize : Int) : Scanner UInt8 ParseError (Option Field) := do
  let nameStart ← Scanner.position
  let first ← Scanner.peek (some .headTooLarge)
  Scanner.refuseIf (maxHeadSize < nameStart) .headTooLarge
  if isBreak first then
    lineEnd .badHeader
    return none
  else
    Scanner.refuseIf (isBlank first) .badHeader
    let field ← fieldLine nameStart
    return some field

section Loop
variable {τ : Type} (maxHeadSize maxHeaders : Int) (frame : τ → Field → Except ParseError τ)

/-- One turn of the loop, with what the fields so far have come to and the table of them. -/
def fieldTurn (seen : τ × List HeaderRef) :
    Scanner UInt8 ParseError ((τ × List HeaderRef) ⊕ (τ × List HeaderRef)) := do
  match ← headerLine maxHeadSize with
  | none => return .inr seen
  | some field =>
    Scanner.refuseIf (seen.2.length = maxHeaders) .tooManyHeaders
    let next ← Scanner.lift (frame seen.1 field)
    return .inl (next, seen.2 ++ [field.ref])

def fields (fuel : Nat) (start : τ) : Scanner UInt8 ParseError (τ × List HeaderRef) :=
  Scanner.loop (fieldTurn maxHeadSize maxHeaders frame) fuel (start, [])

end Loop

def IsLineEnd (ending : Bytes) : Prop := ending = crlf ∨ ending = [cLF]

/-- A line that is accepted as a field. -/
structure Line where
  name : Bytes
  space : Bytes
  run : Bytes
  ending : Bytes
  named : name ≠ []
  token : ∀ c ∈ name, isTokenChar c = true
  blank : ∀ c ∈ space, isBlank c = true
  solid : ∀ c ∈ run.head?, isBlank c = false
  proper : ∀ c ∈ run, isFieldValueChar c = true
  ended : IsLineEnd ending

def Line.bytes (line : Line) : Bytes := line.name ++ cColon :: (line.space ++ (line.run ++ line.ending))

def Line.value (line : Line) : Bytes := line.run.rdropWhile isBlank

def Line.field (line : Line) (start : Nat) : Field :=
  ⟨start, line.name, start + line.name.length + 1 + line.space.length, line.value⟩

/-- What may stand at the end of the buffer while the parsers wait, however large the buffer is: a
line end without its LF, a name, a name with whitespace behind its colon, or a line without its LF. -/
inductive Unended : Bytes → Prop
  | cr : Unended [cCR]
  | name {name : Bytes} (named : name ≠ []) (token : ∀ c ∈ name, isTokenChar c = true) : Unended name
  | space {name space : Bytes} (named : name ≠ []) (token : ∀ c ∈ name, isTokenChar c = true)
      (blank : ∀ c ∈ space, isBlank c = true) : Unended (name ++ cColon :: space)
  | value {name space run : Bytes} (named : name ≠ []) (token : ∀ c ∈ name, isTokenChar c = true)
      (blank : ∀ c ∈ space, isBlank c = true) (solid : ∀ c ∈ run.head?, isBlank c = false)
      (proper : ∀ c ∈ run, isFieldValueChar c = true) :
      Unended (name ++ cColon :: (space ++ (run ++ [cCR])))

theorem isTokenChar_ne {c d : UInt8} (token : isTokenChar c = true) (other : isTokenChar d = false) : c ≠ d := by
  rintro rfl
  cases token.symm.trans other

theorem isTokenChar_not_break {c : UInt8} (token : isTokenChar c = true) : isBreak c = false ∧ isBlank c = false := by
  have cr := isTokenChar_ne token (by decide : isTokenChar cCR = false)
  have lf := isTokenChar_ne token (by decide : isTokenChar cLF = false)
  have sp := isTokenChar_ne token (by decide : isTokenChar cSP = false)
  have ht := isTokenChar_ne token (by decide : isTokenChar cHT = false)
  simp [isBreak, isBlank, cr, lf, sp, ht]

theorem IsLineEnd.head {ending : Bytes} (ended : IsLineEnd ending) :
    ∃ c rest, ending = c :: rest ∧ isBreak c = true ∧ isFieldValueChar c = false ∧ isBlank c = false := by
  rcases ended with rfl | rfl
  · exact ⟨cCR, [cLF], rfl, by decide, by decide, by decide⟩
  · exact ⟨cLF, [], rfl, by decide, by decide, by decide⟩

section LineEnd
variable {e : ParseError} {c c' : Cursor UInt8}

theorem lineEnd_got {u : Unit} : lineEnd e c = .got u c' ↔
    ∃ ending rest, IsLineEnd ending ∧ c.ahead = ending ++ rest ∧ c' = ⟨c.behind ++ ending, rest⟩ := by
  unfold lineEnd
  rw [bind_got]
  constructor
  · rintro ⟨first, c₁, looked, ended⟩
    obtain ⟨-, rfl⟩ := peek_got.mp looked
    by_cases cr : first = cCR
    · rw [if_pos cr, bind_got] at ended
      obtain ⟨_, c₂, one, two⟩ := ended
      obtain ⟨rest, ahead, rfl⟩ := symbol_got.mp one
      obtain ⟨rest', ahead', rfl⟩ := symbol_got.mp two
      dsimp only at ahead'
      subst ahead'
      exact ⟨crlf, rest', Or.inl rfl, ahead, by simp [crlf]⟩
    · rw [if_neg cr] at ended
      obtain ⟨rest, ahead, rfl⟩ := symbol_got.mp ended
      exact ⟨[cLF], rest, Or.inr rfl, ahead, rfl⟩
  · rintro ⟨ending, rest, rfl | rfl, ahead, rfl⟩
    · refine ⟨cCR, c, peek_got.mpr ⟨by rw [ahead]; rfl, rfl⟩, ?_⟩
      rw [if_pos rfl, bind_got]
      refine ⟨(), ⟨c.behind ++ [cCR], cLF :: rest⟩, symbol_got.mpr ⟨_, ahead, rfl⟩, ?_⟩
      exact symbol_got.mpr ⟨rest, rfl, by simp [crlf]⟩
    · refine ⟨cLF, c, peek_got.mpr ⟨by rw [ahead]; rfl, rfl⟩, ?_⟩
      rw [if_neg (by decide)]
      exact symbol_got.mpr ⟨rest, ahead, rfl⟩

theorem lineEnd_starved {limit : Option ParseError} : lineEnd e c = .starved limit ↔
    (c.ahead = [] ∨ c.ahead = [cCR]) ∧ limit = none := by
  unfold lineEnd
  rw [bind_starved, peek_starved]
  constructor
  · rintro (⟨empty, rfl⟩ | ⟨first, c₁, looked, starved⟩)
    · exact ⟨Or.inl empty, rfl⟩
    · obtain ⟨head, rfl⟩ := peek_got.mp looked
      by_cases cr : first = cCR
      · rw [if_pos cr, bind_starved] at starved
        rcases starved with none | ⟨_, c₂, one, none⟩
        · obtain ⟨empty, -⟩ := symbol_starved.mp none
          rw [empty] at head
          cases head
        obtain ⟨rest, ahead, rfl⟩ := symbol_got.mp one
        obtain ⟨empty, rfl⟩ := symbol_starved.mp none
        dsimp only at empty
        rw [empty] at ahead
        exact ⟨Or.inr ahead, rfl⟩
      · rw [if_neg cr] at starved
        obtain ⟨empty, -⟩ := symbol_starved.mp starved
        rw [empty] at head
        cases head
  · rintro ⟨empty | only, rfl⟩
    · exact .inl ⟨empty, rfl⟩
    · right
      refine ⟨cCR, c, peek_got.mpr ⟨by rw [only]; rfl, rfl⟩, ?_⟩
      rw [if_pos rfl, bind_starved]
      right
      refine ⟨(), ⟨c.behind ++ [cCR], []⟩, symbol_got.mpr ⟨[], only, rfl⟩, ?_⟩
      exact symbol_starved.mpr ⟨rfl, rfl⟩

theorem incremental_lineEnd (e : ParseError) : Incremental (lineEnd e) := by
  apply (Incremental.peek none).bind
  intro first
  apply Incremental.ite
  · exact (Incremental.symbol cCR e).bind fun _ => .symbol cLF e
  · exact .symbol cLF e

end LineEnd

theorem after_blank {run : Bytes} {last : UInt8} (solid : ∀ c ∈ run.head?, isBlank c = false)
    (unblank : isBlank last = false) (tail : Bytes) :
    ∃ first rest, run ++ last :: tail = first :: rest ∧ isBlank first = false := by
  cases run with
  | nil => exact ⟨last, tail, rfl, unblank⟩
  | cons x xs => exact ⟨x, _, rfl, solid x rfl⟩

theorem head_solid {run rest tail : Bytes} {x : UInt8} (split : x :: rest = run ++ tail) (solid : isBlank x = false) :
    ∀ c ∈ run.head?, isBlank c = false := by
  intro y head
  cases run with
  | nil => cases head
  | cons z zs =>
    cases head
    cases split
    exact solid

theorem fieldLine_got {start : Nat} {c c' : Cursor UInt8} {field : Field} :
    fieldLine start c = .got field c' ↔ ∃ (line : Line) (rest : Bytes), c.ahead = line.bytes ++ rest ∧
      c' = ⟨c.behind ++ line.bytes, rest⟩ ∧
      field = ⟨start, line.name, (line.field c.behind.length).valueStart, line.value⟩ := by
  unfold fieldLine
  constructor
  · intro got
    simp only [bind_got, span_got, refuseIf_got, symbol_got,
      position_apply, lineEnd_got, pure_apply, Outcome.got.injEq] at got
    obtain ⟨name, _, ⟨s, after, ahead, token, -, rfl⟩, _, _, ⟨long, rfl⟩, _, _, ⟨rest, colon, rfl⟩,
      space, _, ⟨first, tail, spaced, blank, solid, rfl⟩, _, _, ⟨rfl, rfl⟩, run, _,
      ⟨last, tail', ran, proper, -, rfl⟩, _, _, ⟨ending, rest', ended, closed, rfl⟩, rfl, rfl⟩ := got
    have named : name ≠ [] := by
      rintro rfl
      simp at long
    have starts := head_solid ran solid
    refine ⟨⟨name, space, run, ending, named, token, blank, starts, proper, ended⟩, rest', ?_, ?_, ?_⟩
    · dsimp only at colon spaced ran closed
      simp only [Line.bytes, ahead, colon, spaced, ran, closed, append_assoc, cons_append]
    · simp [Line.bytes]
    · simp [Line.field, Line.value]
      omega
  · rintro ⟨⟨name, space, run, ending, named, token, blank, solid, proper, ended⟩, rest, ahead, rfl, rfl⟩
    obtain ⟨u, r⟩ := c
    obtain ⟨last, more, rfl, -, stops, unblank⟩ := ended.head
    obtain ⟨first, tail, starts, clear⟩ := after_blank solid unblank (more ++ rest)
    dsimp only [Line.bytes] at ahead
    simp only [append_assoc, cons_append] at ahead
    simp only [bind_got, span_got, refuseIf_got, symbol_got, position_apply, lineEnd_got, pure_apply, Outcome.got.injEq]
    refine ⟨name, _, ⟨cColon, _, ahead, token, by decide, rfl⟩, (), _, ⟨by simpa using named, rfl⟩,
      (), _, ⟨_, rfl, rfl⟩, space, _, ⟨first, tail, by rw [starts], blank, clear, rfl⟩, _, _,
      ⟨rfl, rfl⟩, run, _, ⟨last, more ++ rest, starts.symm, proper, stops, rfl⟩, (), _,
      ⟨last :: more, rest, ended, rfl, rfl⟩, ?_, ?_⟩
    · simp [Line.field, Line.value]
      omega
    · simp [Line.bytes]

theorem fieldLine_starved_none {start : Nat} {c : Cursor UInt8} (some : c.ahead ≠ [])
    (first : ∀ x ∈ c.ahead.head?, isBreak x = false) :
    fieldLine start c = .starved none ↔ Unended c.ahead := by
  obtain ⟨u, r⟩ := c
  unfold fieldLine
  simp only [bind_starved, span_starved, span_got, refuseIf_starved,
    refuseIf_got, symbol_starved, symbol_got, position_apply,
    lineEnd_starved, lineEnd_got, pure_apply, Outcome.got.injEq, reduceCtorEq, and_false,
    false_or, or_false, and_true, exists_false]
  constructor
  · rintro (all | ⟨name, _, ⟨s, after, ahead, token, -, rfl⟩, _, _, ⟨long, rfl⟩,
      none | ⟨_, _, ⟨rest, colon, rfl⟩, blank | ⟨space, _, ⟨first', tail, spaced, blank, solid, rfl⟩,
        _, _, ⟨rfl, rfl⟩, run, _, ⟨last, tail', ran, proper, -, rfl⟩, none | only⟩⟩⟩)
    · exact .name some all
    · cases none
    · have named : name ≠ [] := by
        rintro rfl
        simp at long
      dsimp only at colon blank
      rw [ahead, colon]
      exact .space named token blank
    · cases none
    have named : name ≠ [] := by
      rintro rfl
      simp at long
    have starts := head_solid ran solid
    dsimp only at colon spaced ran only
    rw [ahead, colon, spaced, ran, only]
    exact .value named token blank starts proper
  · intro unended
    cases unended with
    | cr => exact absurd (first cCR rfl) (by decide)
    | name named token => exact .inl token
    | @space name space named token blank =>
      right
      refine ⟨name, _, ⟨cColon, space, rfl, token, by decide, rfl⟩, (), _, ⟨by simpa using named, rfl⟩,
        Or.inr ⟨(), _, ⟨space, rfl, rfl⟩, Or.inl blank⟩⟩
    | @value name space run named token blank solid proper =>
      obtain ⟨first, tail, starts, clear⟩ := after_blank solid (by decide : isBlank cCR = false) []
      right
      refine ⟨name, _, ⟨cColon, _, rfl, token, by decide, rfl⟩, (), _, ⟨by simpa using named, rfl⟩,
        Or.inr ⟨(), _, ⟨_, rfl, rfl⟩, Or.inr ⟨space, _, ⟨first, tail, by rw [starts], blank, clear,
          rfl⟩, _, _, ⟨rfl, rfl⟩, run, _, ⟨cCR, [], starts.symm, proper, by decide, rfl⟩,
          Or.inr rfl⟩⟩⟩

theorem incremental_fieldLine (start : Nat) : Incremental (fieldLine start) := by
  apply (Incremental.span _ _).bind
  intro name
  apply (Incremental.refuseIf _ _).bind
  intro _
  apply (Incremental.symbol _ _).bind
  intro _
  apply (Incremental.span _ _).bind
  intro space
  apply Incremental.position.bind
  intro valueStart
  apply (Incremental.span _ _).bind
  intro run
  apply (incremental_lineEnd _).bind
  intro _
  exact .pure _

section HeaderLine
variable {maxHeadSize : Int} {c c' : Cursor UInt8}

theorem Line.head_bytes (line : Line) : ∃ x rest, line.bytes = x :: rest ∧ isTokenChar x = true := by
  obtain ⟨name, space, run, ending, named, token, -⟩ := line
  cases name with
  | nil => exact absurd rfl named
  | cons x xs => exact ⟨x, _, rfl, token x mem_cons_self⟩

theorem headerLine_got_none : headerLine maxHeadSize c = .got none c' ↔
    c.behind.length ≤ maxHeadSize ∧ ∃ ending rest, IsLineEnd ending ∧ c.ahead = ending ++ rest ∧
      c' = ⟨c.behind ++ ending, rest⟩ := by
  unfold headerLine
  simp only [bind_got, position_apply, peek_got, refuseIf_got, Outcome.got.injEq]
  constructor
  · rintro ⟨_, _, ⟨rfl, rfl⟩, first, _, ⟨head, rfl⟩, _, _, ⟨inside, rfl⟩, rest⟩
    by_cases breaks : isBreak first = true
    · rw [if_pos breaks, bind_got] at rest
      obtain ⟨_, c₁, ended, last⟩ := rest
      cases last
      exact ⟨by simpa using inside, lineEnd_got.mp ended⟩
    rw [if_neg breaks, bind_got] at rest
    obtain ⟨_, c₁, -, rest⟩ := rest
    obtain ⟨field, c₂, -, last⟩ := bind_got.mp rest
    cases last
  · rintro ⟨inside, ending, rest, ended, ahead, rfl⟩
    obtain ⟨first, more, rfl, breaks, -⟩ := ended.head
    refine ⟨_, _, ⟨rfl, rfl⟩, first, _, ⟨by rw [ahead]; rfl, rfl⟩, (), _, ⟨by simpa using inside, rfl⟩, ?_⟩
    rw [if_pos breaks, bind_got]
    exact ⟨(), _, lineEnd_got.mpr ⟨_, rest, ended, ahead, rfl⟩, rfl⟩

theorem headerLine_got_some {field : Field} : headerLine maxHeadSize c = .got (some field) c' ↔
    c.behind.length ≤ maxHeadSize ∧ ∃ (line : Line) (rest : Bytes), c.ahead = line.bytes ++ rest ∧
      c' = ⟨c.behind ++ line.bytes, rest⟩ ∧ field = line.field c.behind.length := by
  unfold headerLine
  simp only [bind_got, position_apply, peek_got, refuseIf_got, Outcome.got.injEq]
  constructor
  · rintro ⟨_, _, ⟨rfl, rfl⟩, first, _, ⟨head, rfl⟩, _, _, ⟨inside, rfl⟩, rest⟩
    by_cases breaks : isBreak first = true
    · rw [if_pos breaks, bind_got] at rest
      obtain ⟨_, c₁, -, last⟩ := rest
      cases last
    rw [if_neg breaks, bind_got] at rest
    obtain ⟨_, c₁, clear, rest⟩ := rest
    obtain ⟨-, rfl⟩ := refuseIf_got.mp clear
    obtain ⟨field', c₂, read, last⟩ := bind_got.mp rest
    cases last
    obtain ⟨line, more, ahead, rfl, rfl⟩ := fieldLine_got.mp read
    exact ⟨by simpa using inside, line, more, ahead, rfl, rfl⟩
  · rintro ⟨inside, line, rest, ahead, rfl, rfl⟩
    obtain ⟨first, more, bytes, token⟩ := line.head_bytes
    obtain ⟨breaks, blank⟩ := isTokenChar_not_break token
    refine ⟨_, _, ⟨rfl, rfl⟩, first, _, ⟨by rw [ahead, bytes]; rfl, rfl⟩, (), _, ⟨by simpa using inside, rfl⟩, ?_⟩
    rw [if_neg (by simp [breaks]), bind_got]
    refine ⟨(), _, refuseIf_got.mpr ⟨blank, rfl⟩, ?_⟩
    rw [bind_got]
    exact ⟨_, _, fieldLine_got.mpr ⟨line, rest, ahead, rfl, rfl⟩, rfl⟩

theorem Unended.head {part : Bytes} (unended : Unended part) :
    ∃ x rest, part = x :: rest ∧ (isTokenChar x = true ∨ part = [cCR]) := by
  cases unended with
  | cr => exact ⟨cCR, [], rfl, Or.inr rfl⟩
  | name named token =>
    cases part with
    | nil => exact absurd rfl named
    | cons x xs => exact ⟨x, xs, rfl, Or.inl (token x mem_cons_self)⟩
  | @space name space named token blank =>
    cases name with
    | nil => exact absurd rfl named
    | cons x xs => exact ⟨x, _, rfl, Or.inl (token x mem_cons_self)⟩
  | @value name space run named token blank solid proper =>
    cases name with
    | nil => exact absurd rfl named
    | cons x xs => exact ⟨x, _, rfl, Or.inl (token x mem_cons_self)⟩

theorem headerLine_starved_none : headerLine maxHeadSize c = .starved none ↔
    c.behind.length ≤ maxHeadSize ∧ Unended c.ahead := by
  unfold headerLine
  simp only [bind_starved, position_apply, peek_starved, peek_got,
    refuseIf_starved, refuseIf_got, Outcome.got.injEq, reduceCtorEq, and_false,
    false_or]
  constructor
  · rintro ⟨_, _, ⟨rfl, rfl⟩, first, _, ⟨head, rfl⟩, _, _, ⟨inside, rfl⟩, rest⟩
    refine ⟨by simpa using inside, ?_⟩
    by_cases breaks : isBreak first = true
    · rw [if_pos breaks, bind_starved, lineEnd_starved] at rest
      rcases rest with ⟨empty | only, -⟩ | ⟨_, c₁, -, last⟩
      · rw [empty] at head
        cases head
      · rw [only]
        exact .cr
      · cases last
    · rw [if_neg breaks, bind_starved] at rest
      rcases rest with none | ⟨_, c₁, clear, rest⟩
      · exact absurd none refuseIf_starved
      obtain ⟨-, rfl⟩ := refuseIf_got.mp clear
      rcases bind_starved.mp rest with waits | ⟨_, c₂, -, last⟩
      · refine (fieldLine_starved_none ?_ ?_).mp waits
        · intro empty
          rw [empty] at head
          cases head
        · intro x member
          cases head.symm.trans member
          simpa using breaks
      · cases last
  · rintro ⟨inside, unended⟩
    obtain ⟨first, rest, ahead, kind⟩ := unended.head
    refine ⟨_, _, ⟨rfl, rfl⟩, first, _, ⟨by rw [ahead]; rfl, rfl⟩, (), _, ⟨by simpa using inside, rfl⟩, ?_⟩
    rcases kind with token | only
    · obtain ⟨breaks, blank⟩ := isTokenChar_not_break token
      rw [if_neg (by simp [breaks]), bind_starved]
      right
      refine ⟨(), _, refuseIf_got.mpr ⟨blank, rfl⟩, ?_⟩
      rw [bind_starved]
      left
      apply (fieldLine_starved_none _ _).mpr unended
      · rw [ahead]
        exact cons_ne_nil _ _
      · intro x member
        rw [ahead] at member
        cases member
        exact breaks
    · have cr : first = cCR := by
        rw [ahead] at only
        exact (List.cons.inj only).1
      rw [cr, if_pos (by decide), bind_starved]
      exact .inl (lineEnd_starved.mpr ⟨Or.inr only, rfl⟩)

theorem incremental_headerLine (maxHeadSize : Int) : Incremental (headerLine maxHeadSize) := by
  apply Incremental.position.bind
  intro nameStart
  apply (Incremental.peek _).bind
  intro first
  apply (Incremental.refuseIf _ _).bind
  intro _
  apply Incremental.ite
  · exact (incremental_lineEnd _).bind fun _ => .pure _
  · apply (Incremental.refuseIf _ _).bind
    intro _
    exact (incremental_fieldLine _).bind fun _ => .pure _

theorem stops_headerLine (maxHeadSize : Int) : Scanner.Stops maxHeadSize (headerLine maxHeadSize) := by
  intro c far x c' got
  cases x with
  | none =>
    obtain ⟨inside, -⟩ := headerLine_got_none.mp got
    omega
  | some field =>
    obtain ⟨inside, -⟩ := headerLine_got_some.mp got
    omega

theorem headerLine_beyond {u r more : Bytes} {e : ParseError}
    (starved : headerLine maxHeadSize ⟨u, r⟩ = .starved (some e))
    (far : maxHeadSize < (u.length + r.length : Nat)) :
    headerLine maxHeadSize ⟨u, r ++ more⟩ ≠ .got none c' := by
  intro got
  obtain ⟨inside, ending, rest, ended, ahead, -⟩ := headerLine_got_none.mp got
  obtain ⟨first, tail, rfl, breaks, -⟩ := ended.head
  dsimp only at inside ahead
  cases r with
  | nil =>
    simp only [length_nil, Nat.add_zero] at far
    omega
  | cons x xs =>
    obtain ⟨rfl, -⟩ := List.cons.inj ahead
    unfold headerLine at starved
    simp only [bind_starved, position_apply, peek_starved, peek_got,
      refuseIf_starved, refuseIf_got, Outcome.got.injEq, reduceCtorEq,
      false_or] at starved
    obtain ⟨_, _, ⟨rfl, rfl⟩, ⟨empty, -⟩ | ⟨_, _, ⟨head, rfl⟩, _, _, ⟨-, rfl⟩, last⟩⟩ := starved
    · cases empty
    cases head
    rw [if_pos breaks, bind_starved, lineEnd_starved] at last
    rcases last with ⟨-, none⟩ | ⟨_, _, -, none⟩ <;> cases none

end HeaderLine

end AvianCore.Http
