import AvianCore.Http.Fields

/-!
The whole header section: what the loop over the fields gets, where it waits, and that it may be given
its bytes in any pieces.
-/

namespace AvianCore.Http
open AvianCore.Lib List Scanner Nat

def linesBytes (lines : List Line) : Bytes := lines.flatMap Line.bytes

def located : Nat → List Line → List Field
  | _, [] => []
  | start, line :: rest => line.field start :: located (start + line.bytes.length) rest

def Room (maxHeaders : Int) (count more : Nat) : Prop := ∀ k < more, ((count + k : Nat) : Int) ≠ maxHeaders

@[simp] theorem linesBytes_nil : linesBytes [] = [] := rfl

@[simp] theorem linesBytes_cons (line : Line) (lines : List Line) :
    linesBytes (line :: lines) = line.bytes ++ linesBytes lines := rfl

theorem linesBytes_append (lines lines' : List Line) :
    linesBytes (lines ++ lines') = linesBytes lines ++ linesBytes lines' := flatMap_append

theorem length_located (start : Nat) (lines : List Line) : (located start lines).length = lines.length := by
  induction lines generalizing start with
  | nil => rfl
  | cons line rest ih => rw [located, length_cons, length_cons, ih]

theorem Line.length_bytes_pos (line : Line) : 0 < line.bytes.length := by
  obtain ⟨x, rest, bytes, -⟩ := line.head_bytes
  rw [bytes]
  exact succ_pos _

theorem Room.succ {maxHeaders : Int} {count more : Nat} :
    Room maxHeaders count (more + 1) ↔ (count : Int) ≠ maxHeaders ∧ Room maxHeaders (count + 1) more := by
  constructor
  · intro room
    refine ⟨room 0 (succ_pos _), ?_⟩
    intro k less
    have next := room (k + 1) (by omega)
    rwa [show count + (k + 1) = count + 1 + k by omega] at next
  · rintro ⟨now, later⟩ k less
    cases k with
    | zero => exact now
    | succ k =>
      rw [show count + (k + 1) = count + 1 + k by omega]
      exact later k (by omega)

theorem Room.of_le {maxHeaders : Int} {more : Nat} (enough : (more : Int) ≤ maxHeaders) : Room maxHeaders 0 more := by
  intro k less
  omega

section Loop
variable {τ : Type} {maxHeadSize maxHeaders : Int} {frame : τ → Field → Except ParseError τ}
  {seen : τ × List HeaderRef} {c c' : Cursor UInt8}

theorem fieldTurn_inl {next : τ × List HeaderRef} :
    fieldTurn maxHeadSize maxHeaders frame seen c = .got (.inl next) c' ↔
      c.behind.length ≤ maxHeadSize ∧ ∃ (line : Line) (rest : Bytes), c.ahead = line.bytes ++ rest ∧
        c' = ⟨c.behind ++ line.bytes, rest⟩ ∧ (seen.2.length : Int) ≠ maxHeaders ∧
        frame seen.1 (line.field c.behind.length) = .ok next.1 ∧
        next.2 = seen.2 ++ [(line.field c.behind.length).ref] := by
  unfold fieldTurn
  rw [bind_got]
  constructor
  · rintro ⟨x, c₁, read, turned⟩
    cases x with
    | none => cases turned
    | some field =>
      obtain ⟨inside, line, rest, ahead, rfl, rfl⟩ := headerLine_got_some.mp read
      simp only [bind_got, refuseIf_got, lift_got, pure_apply, Outcome.got.injEq, Sum.inl.injEq] at turned
      obtain ⟨_, _, ⟨room, rfl⟩, t, _, ⟨framed, rfl⟩, rfl, rfl⟩ := turned
      exact ⟨inside, line, rest, ahead, rfl, by simpa using room, framed, rfl⟩
  · rintro ⟨inside, line, rest, ahead, rfl, room, framed, refs⟩
    refine ⟨some _, _, headerLine_got_some.mpr ⟨inside, line, rest, ahead, rfl, rfl⟩, ?_⟩
    simp only [bind_got, refuseIf_got, lift_got, pure_apply, Outcome.got.injEq, Sum.inl.injEq]
    exact ⟨(), _, ⟨by simpa using room, rfl⟩, next.1, _, ⟨framed, rfl⟩, by rw [← refs], rfl⟩

variable {last : τ × List HeaderRef}

theorem fieldTurn_inr : fieldTurn maxHeadSize maxHeaders frame seen c = .got (.inr last) c' ↔ last = seen ∧
    c.behind.length ≤ maxHeadSize ∧ ∃ ending rest, IsLineEnd ending ∧ c.ahead = ending ++ rest ∧
      c' = ⟨c.behind ++ ending, rest⟩ := by
  unfold fieldTurn
  rw [bind_got, ← headerLine_got_none]
  constructor
  · rintro ⟨x, c₁, read, turned⟩
    cases x with
    | none =>
      cases turned
      exact ⟨rfl, read⟩
    | some field =>
      simp only [bind_got, pure_apply, Outcome.got.injEq, reduceCtorEq, false_and, and_false, exists_false] at turned
  · rintro ⟨rfl, read⟩
    exact ⟨none, c', read, rfl⟩

theorem fieldTurn_starved_none : fieldTurn maxHeadSize maxHeaders frame seen c = .starved none ↔
    c.behind.length ≤ maxHeadSize ∧ Unended c.ahead := by
  unfold fieldTurn
  rw [bind_starved, ← headerLine_starved_none]
  constructor
  · rintro (waits | ⟨x, c₁, read, turned⟩)
    · exact waits
    · cases x with
      | none => cases turned
      | some field =>
        simp only [bind_starved, refuseIf_starved, lift_starved,
          pure_apply, reduceCtorEq, and_false, exists_false, or_self] at turned
  · exact .inl

theorem incremental_fieldTurn (maxHeadSize maxHeaders : Int) (frame : τ → Field → Except ParseError τ)
    (seen : τ × List HeaderRef) :
    Incremental (fieldTurn maxHeadSize maxHeaders frame seen) := by
  apply (incremental_headerLine maxHeadSize).bind
  intro x
  cases x with
  | none => exact .pure _
  | some field =>
    apply (Incremental.refuseIf _ _).bind
    intro _
    exact (Incremental.lift _).bind fun _ => .pure _

theorem fieldTurn_moves {seen next : τ × List HeaderRef} {c c' : Cursor UInt8}
    (turned : fieldTurn maxHeadSize maxHeaders frame seen c = .got (.inl next) c') :
    c'.ahead.length < c.ahead.length := by
  obtain ⟨-, line, rest, ahead, rfl, -⟩ := fieldTurn_inl.mp turned
  have positive := line.length_bytes_pos
  rw [ahead, length_append]
  exact Nat.lt_add_of_pos_left positive

theorem incremental_fields (maxHeadSize maxHeaders : Int) (frame : τ → Field → Except ParseError τ)
    (fuel : Nat) (start : τ) :
    Incremental (fields maxHeadSize maxHeaders frame fuel start) :=
  .loop (incremental_fieldTurn maxHeadSize maxHeaders frame) fuel _

theorem stops_fields (maxHeadSize maxHeaders : Int) (frame : τ → Field → Except ParseError τ) (fuel : Nat) (start : τ) :
    Scanner.Stops maxHeadSize (fields maxHeadSize maxHeaders frame fuel start) :=
  .loop (fun _ => (stops_headerLine maxHeadSize).bind_left _) fuel _

theorem firm_fields (maxHeadSize maxHeaders : Int) (frame : τ → Field → Except ParseError τ) (fuel : Nat) (start : τ) :
    Scanner.Firm maxHeadSize (fields maxHeadSize maxHeaders frame fuel start) := by
  apply Scanner.Firm.loop (incremental_fieldTurn maxHeadSize maxHeaders frame)
  · intro seen
    exact (stops_headerLine maxHeadSize).bind_left _
  · intro seen u r e more last c' starved far got
    unfold fieldTurn at starved
    rcases bind_starved.mp starved with waits | ⟨x, c₁, -, turned⟩
    · obtain ⟨-, inside⟩ := fieldTurn_inr.mp got
      exact headerLine_beyond waits far (headerLine_got_none.mpr inside)
    cases x with
    | none => cases turned
    | some field =>
      simp only [bind_starved, refuseIf_starved, lift_starved,
        pure_apply, reduceCtorEq, and_false, exists_false, or_self] at turned

theorem fields_fuel {n m : Nat} {start : τ} (enough : c.ahead.length < n) (enough' : c.ahead.length < m) :
    fields maxHeadSize maxHeaders frame n start c = fields maxHeadSize maxHeaders frame m start c :=
  loop_fuel (fun _ _ _ _ => fieldTurn_moves) enough enough'

/-- Lines that are accepted as fields, from a place and with so many fields before them. -/
structure Accepted (maxHeadSize maxHeaders : Int) (frame : τ → Field → Except ParseError τ)
    (start count : Nat) (t : τ) (lines : List Line) (t' : τ) : Prop where
  inside : ((start + (linesBytes lines).length : Nat) : Int) ≤ maxHeadSize
  room : Room maxHeaders count lines.length
  framed : (located start lines).foldlM frame t = .ok t'

theorem Accepted.nil {start count : Nat} {t : τ} (inside : (start : Int) ≤ maxHeadSize) :
    Accepted maxHeadSize maxHeaders frame start count t [] t where
  inside := inside
  room := fun k less => absurd less (not_lt_zero k)
  framed := rfl

theorem Accepted.of_nil {start count : Nat} {t t' : τ}
    (accepted : Accepted maxHeadSize maxHeaders frame start count t [] t') :
    (start : Int) ≤ maxHeadSize ∧ t' = t := by
  refine ⟨accepted.inside, ?_⟩
  have framed := accepted.framed
  cases framed
  rfl

theorem foldlM_cons_ok {t t' : τ} {field : Field} {rest : List Field} : (field :: rest).foldlM frame t = .ok t' ↔
    ∃ t₁, frame t field = .ok t₁ ∧ rest.foldlM frame t₁ = .ok t' := by
  rw [foldlM_cons]
  cases frame t field with
  | error e | ok t₁ => simp [bind, Except.bind]

theorem Accepted.cons_iff {start count : Nat} {t t' : τ} {line : Line} {lines : List Line} :
    Accepted maxHeadSize maxHeaders frame start count t (line :: lines) t' ↔
      (count : Int) ≠ maxHeaders ∧ ∃ t₁, frame t (line.field start) = .ok t₁ ∧
        Accepted maxHeadSize maxHeaders frame (start + line.bytes.length) (count + 1) t₁ lines t' := by
  constructor
  · rintro ⟨inside, room, framed⟩
    obtain ⟨now, later⟩ := Room.succ.mp room
    obtain ⟨t₁, first, rest⟩ := foldlM_cons_ok.mp framed
    refine ⟨now, t₁, first, ?_, later, rest⟩
    rw [linesBytes_cons, length_append] at inside
    omega
  · rintro ⟨now, t₁, first, inside, later, rest⟩
    refine ⟨?_, Room.succ.mpr ⟨now, later⟩, foldlM_cons_ok.mpr ⟨t₁, first, rest⟩⟩
    rw [linesBytes_cons, length_append]
    omega

variable {fuel : Nat}

theorem Accepted.turn {last : τ} {line : Line} {lines : List Line} {rest : Bytes}
    (accepted : Accepted maxHeadSize maxHeaders frame c.behind.length seen.2.length seen.1 (line :: lines) last)
    (ahead : c.ahead = linesBytes (line :: lines) ++ rest) : ∃ t₁,
    fieldTurn maxHeadSize maxHeaders frame seen c = .got (.inl (t₁, seen.2 ++ [(line.field c.behind.length).ref]))
      ⟨c.behind ++ line.bytes, linesBytes lines ++ rest⟩ ∧
    Accepted maxHeadSize maxHeaders frame (c.behind.length + line.bytes.length) (seen.2.length + 1) t₁ lines last := by
  obtain ⟨room, t₁, framed, further⟩ := Accepted.cons_iff.mp accepted
  have inside : (c.behind.length : Int) ≤ maxHeadSize := by
    have := accepted.inside
    omega
  rw [linesBytes_cons, append_assoc] at ahead
  exact ⟨t₁, fieldTurn_inl.mpr ⟨inside, line, _, ahead, rfl, room, framed, rfl⟩, further⟩

theorem loop_got (enough : c.ahead.length < fuel) :
    Scanner.loop (fieldTurn maxHeadSize maxHeaders frame) fuel seen c = .got last c' ↔
      ∃ lines ending rest, IsLineEnd ending ∧ c.ahead = linesBytes lines ++ (ending ++ rest) ∧
        c' = ⟨c.behind ++ (linesBytes lines ++ ending), rest⟩ ∧
        Accepted maxHeadSize maxHeaders frame c.behind.length seen.2.length seen.1 lines last.1 ∧
        last.2 = seen.2 ++ (located c.behind.length lines).map Field.ref := by
  induction fuel generalizing seen c with
  | zero => exact absurd enough (not_lt_zero _)
  | succ fuel ih =>
    rw [loop_succ, bind_got]
    constructor
    · rintro ⟨x, c₁, turned, further⟩
      cases x with
      | inr answer =>
        cases further
        obtain ⟨rfl, inside, ending, rest, ended, ahead, rfl⟩ := fieldTurn_inr.mp turned
        exact ⟨[], ending, rest, ended, ahead, rfl, .nil inside, by simp [located]⟩
      | inl next =>
        have shorter := fieldTurn_moves turned
        obtain ⟨inside, line, rest, ahead, rfl, room, framed, refs⟩ := fieldTurn_inl.mp turned
        obtain ⟨lines, ending, rest', ended, ahead', rfl, accepted, refs'⟩ := (ih (by omega)).mp further
        dsimp only at ahead' accepted refs'
        rw [length_append] at accepted refs'
        refine ⟨line :: lines, ending, rest', ended, ?_, ?_, ?_, ?_⟩
        · rw [ahead, ahead', linesBytes_cons, append_assoc]
        · simp [append_assoc]
        · rw [refs, length_append] at accepted
          exact Accepted.cons_iff.mpr ⟨room, next.1, framed, accepted⟩
        · rw [refs', refs]
          simp [located]
    · rintro ⟨lines, ending, rest, ended, ahead, rfl, accepted, refs⟩
      cases lines with
      | nil =>
        obtain ⟨inside, same⟩ := accepted.of_nil
        refine ⟨.inr seen, _, fieldTurn_inr.mpr ⟨rfl, inside, ending, rest, ended, ahead, rfl⟩, ?_⟩
        obtain ⟨t, table⟩ := last
        obtain ⟨t', table'⟩ := seen
        simp only [located, map_nil, append_nil] at refs
        dsimp only at same
        rw [same, refs]
        rfl
      | cons line lines =>
        obtain ⟨t₁, turned, further⟩ := accepted.turn ahead
        have shorter := fieldTurn_moves turned
        refine ⟨.inl (t₁, _), _, turned, ?_⟩
        apply (ih (by omega)).mpr
        refine ⟨lines, ending, rest, ended, rfl, ?_, ?_, ?_⟩
        · simp [append_assoc]
        · dsimp only
          rw [length_append, length_append]
          exact further
        · rw [refs]
          simp [located]

theorem fields_got {start : τ} (enough : c.ahead.length < fuel) :
    fields maxHeadSize maxHeaders frame fuel start c = .got last c' ↔
      ∃ lines ending rest, IsLineEnd ending ∧ c.ahead = linesBytes lines ++ (ending ++ rest) ∧
        c' = ⟨c.behind ++ (linesBytes lines ++ ending), rest⟩ ∧
        Accepted maxHeadSize maxHeaders frame c.behind.length 0 start lines last.1 ∧
        last.2 = (located c.behind.length lines).map Field.ref := by
  unfold fields
  rw [loop_got enough]
  simp

theorem loop_starved_none (enough : c.ahead.length < fuel) :
    Scanner.loop (fieldTurn maxHeadSize maxHeaders frame) fuel seen c = .starved none ↔
      ∃ lines part t, c.ahead = linesBytes lines ++ part ∧ Unended part ∧
        Accepted maxHeadSize maxHeaders frame c.behind.length seen.2.length seen.1 lines t := by
  induction fuel generalizing seen c with
  | zero => exact absurd enough (not_lt_zero _)
  | succ fuel ih =>
    rw [loop_succ, bind_starved]
    constructor
    · rintro (waits | ⟨x, c₁, turned, further⟩)
      · obtain ⟨inside, unended⟩ := fieldTurn_starved_none.mp waits
        exact ⟨[], c.ahead, seen.1, rfl, unended, .nil inside⟩
      · cases x with
        | inr answer => cases further
        | inl next =>
          have shorter := fieldTurn_moves turned
          obtain ⟨inside, line, rest, ahead, rfl, room, framed, refs⟩ := fieldTurn_inl.mp turned
          obtain ⟨lines, part, t, ahead', unended, accepted⟩ := (ih (by omega)).mp further
          dsimp only at ahead' accepted
          rw [refs, length_append, length_append] at accepted
          refine ⟨line :: lines, part, t, ?_, unended, ?_⟩
          · rw [ahead, ahead', linesBytes_cons, append_assoc]
          · exact Accepted.cons_iff.mpr ⟨room, next.1, framed, accepted⟩
    · rintro ⟨lines, part, t, ahead, unended, accepted⟩
      cases lines with
      | nil =>
        left
        exact fieldTurn_starved_none.mpr ⟨accepted.of_nil.1, by rw [ahead]; exact unended⟩
      | cons line lines =>
        right
        obtain ⟨t₁, turned, further⟩ := accepted.turn ahead
        have shorter := fieldTurn_moves turned
        refine ⟨.inl (t₁, _), _, turned, ?_⟩
        apply (ih (by omega)).mpr
        refine ⟨lines, part, t, rfl, unended, ?_⟩
        dsimp only
        rw [length_append, length_append]
        exact further

theorem fields_starved_none {start : τ} (enough : c.ahead.length < fuel) :
    fields maxHeadSize maxHeaders frame fuel start c = .starved none ↔
      ∃ lines part t, c.ahead = linesBytes lines ++ part ∧ Unended part ∧
        Accepted maxHeadSize maxHeaders frame c.behind.length 0 start lines t := by
  unfold fields
  rw [loop_starved_none enough]
  rfl

end Loop

section Results
variable {H : Type} {maxHeadSize : Int}

/-- The result of a scan over the whole buffer: a parser that comes to its end fails where it names an
error and the buffer is larger than a head may be. -/
def conclude (maxHeadSize : Int) (count : Nat) :
    Outcome UInt8 ParseError (H × List HeaderRef) → ParseResult H
  | .starved none => .incomplete
  | .starved (some e) => if maxHeadSize < count then .failure e else .incomplete
  | .refused e => .failure e
  | .got (head, headers) _ => .complete head headers

variable {count : Nat} {outcome : Outcome UInt8 ParseError (H × List HeaderRef)}

theorem conclude_complete {head : H} {headers : List HeaderRef} :
    conclude maxHeadSize count outcome = .complete head headers ↔ ∃ c', outcome = .got (head, headers) c' := by
  unfold conclude
  split
  · simp
  · split <;> simp
  · simp
  · simp

theorem conclude_failure {e : ParseError} : conclude maxHeadSize count outcome = .failure e ↔
    outcome = .refused e ∨ outcome = .starved (some e) ∧ maxHeadSize < count := by
  unfold conclude
  split
  · simp
  · split
    case isTrue far => simp [far]
    case isFalse near => simp [near]
  · simp
  · simp

theorem conclude_incomplete : conclude maxHeadSize count outcome = .incomplete ↔
    outcome = .starved none ∨ ∃ e, outcome = .starved (some e) ∧ (count : Int) ≤ maxHeadSize := by
  unfold conclude
  split
  · simp
  · split
    case isTrue far => simp [not_le.mpr far]
    case isFalse near => simp [not_lt.mp near]
  · simp
  · simp

/-- A parser that is a scan whose loops may turn often enough. -/
structure Scans (maxHeadSize : Int) (parse : Bytes → ParseResult H)
    (scan : Nat → Scanner UInt8 ParseError (H × List HeaderRef)) (headEnd : H → Nat) : Prop where
  parsed : ∀ {b : Bytes} {n : Nat}, b.length < n → parse b = conclude maxHeadSize b.length (scan n ⟨[], b⟩)
  incremental : ∀ n, Scanner.Incremental (scan n)
  firm : ∀ n, Scanner.Firm maxHeadSize (scan n)
  ends : ∀ {n b a c'}, scan n ⟨[], b⟩ = .got a c' → headEnd a.1 = c'.behind.length

namespace Scans
variable {parse : Bytes → ParseResult H} {scan : Nat → Scanner UInt8 ParseError (H × List HeaderRef)}
  {headEnd : H → Nat} {b : Bytes} {head : H} {headers : List HeaderRef}

theorem complete_append (scans : Scans maxHeadSize parse scan headEnd)
    (complete : parse b = .complete head headers) (more : Bytes) :
    parse (b ++ more) = .complete head headers := by
  have room : b.length < (b ++ more).length + 1 := by
    rw [length_append]
    omega
  rw [scans.parsed room, conclude_complete] at complete
  obtain ⟨c', got⟩ := complete
  rw [scans.parsed (lt_succ_self _), conclude_complete]
  exact ⟨_, (scans.incremental _).got_more more got⟩

theorem failure_append (scans : Scans maxHeadSize parse scan headEnd) {e : ParseError}
    (failed : parse b = .failure e) (more : Bytes) : parse (b ++ more) ≠ .complete head headers := by
  have room : b.length < (b ++ more).length + 1 := by
    rw [length_append]
    omega
  intro complete
  rw [scans.parsed room, conclude_failure] at failed
  rw [scans.parsed (lt_succ_self _), conclude_complete] at complete
  obtain ⟨c', got⟩ := complete
  rcases failed with refused | ⟨starved, far⟩
  · rw [(scans.incremental _).refused_more more refused] at got
    cases got
  · exact scans.firm _ _ _ e starved (by simpa using far) more _ _ got

theorem incomplete_of_prefix (scans : Scans maxHeadSize parse scan headEnd)
    (complete : parse b = .complete head headers) {part rest : Bytes}
    (split : b.take (headEnd head) = part ++ rest) (proper : rest ≠ []) :
    parse part = .incomplete := by
  have whole : b = part ++ (rest ++ b.drop (headEnd head)) := by rw [← append_assoc, ← split, take_append_drop]
  have short : part.length < headEnd head := by
    have length := congrArg List.length split
    have positive := length_pos_iff.mpr proper
    rw [length_take, length_append] at length
    omega
  cases parsed : parse part with
  | incomplete => rfl
  | failure e =>
    rw [whole] at complete
    exact absurd complete (scans.failure_append parsed _)
  | complete head' headers' =>
    have same := scans.complete_append parsed (rest ++ b.drop (headEnd head))
    rw [← whole, complete] at same
    cases same
    rw [scans.parsed (lt_succ_self _), conclude_complete] at parsed
    obtain ⟨c', got⟩ := parsed
    have ends := scans.ends got
    dsimp only at ends
    have inside := ((scans.incremental _).length_behind got).2
    dsimp only [length_nil] at inside
    omega

end Scans

end Results

/-- The first line of a head, as the scanner for it gets it from the start of a buffer. -/
structure FirstLine {L H : Type} (scan : Scanner UInt8 ParseError H) (bytes : L → Bytes) (head : L → H)
    (Fits : L → Bytes → Prop) : Prop where
  incremental : Incremental scan
  got : ∀ {b h c'}, scan ⟨[], b⟩ = .got h c' ↔ ∃ line rest,
    b = bytes line ++ rest ∧ c' = ⟨bytes line, rest⟩ ∧ Fits line rest ∧ h = head line

/-- What stands behind the fields: checks that take nothing in, and the head they give. -/
structure HeadEnd {H τ : Type} (scan : H → τ × List HeaderRef → Scanner UInt8 ParseError (H × List HeaderRef))
    (Good : H → τ → Prop) (finish : H → τ → Nat → Nat → H) : Prop where
  incremental : ∀ h last, Incremental (scan h last)
  fed : ∀ h last c e, scan h last c ≠ .starved e
  got : ∀ {h last c a c'}, scan h last c = .got a c' ↔
    Good h last.1 ∧ c' = c ∧ a = (finish h last.1 last.2.length c.behind.length, last.2)

namespace HeadEnd
variable {H τ : Type} {scan : H → τ × List HeaderRef → Scanner UInt8 ParseError (H × List HeaderRef)}
  {Good : H → τ → Prop} {finish : H → τ → Nat → Nat → H}

theorem finished (finish : H → τ → Nat → Nat → H) : HeadEnd (fun h last => do
      let headEnd ← Scanner.position
      return (finish h last.1 last.2.length headEnd, last.2)) (fun _ _ => True) finish where
  incremental _ _ := Incremental.position.bind fun _ => .pure _
  fed _ _ _ _ := by simp [bind_starved]
  got := by
    intro h last c a c'
    simp only [bind_got, position_apply, pure_apply, Outcome.got.injEq]
    constructor
    · rintro ⟨_, _, ⟨rfl, rfl⟩, rfl, rfl⟩
      exact ⟨trivial, rfl, rfl⟩
    · rintro ⟨-, rfl, rfl⟩
      exact ⟨_, _, ⟨rfl, rfl⟩, rfl, rfl⟩

theorem refuse (ends : HeadEnd scan Good finish) (bad : H → τ → Bool) (e : ParseError) : HeadEnd (fun h last => do
      Scanner.refuseIf (bad h last.1) e
      scan h last) (fun h last => bad h last = false ∧ Good h last) finish where
  incremental _ _ := (Incremental.refuseIf _ _).bind fun _ => ends.incremental _ _
  fed _ _ _ _ := by simp [bind_starved, ends.fed]
  got := by
    intro h last c a c'
    simp only [bind_got, refuseIf_got, ends.got, and_assoc]
    constructor
    · rintro ⟨_, _, fine, rfl, good, rfl, rfl⟩
      exact ⟨fine, good, rfl, rfl⟩
    · rintro ⟨fine, good, rfl, rfl⟩
      exact ⟨(), _, fine, rfl, good, rfl, rfl⟩

end HeadEnd

section Head
variable {L H τ : Type} {maxHeadSize maxHeaders : Int} {first : Scanner UInt8 ParseError H} {bytes : L → Bytes}
  {head : L → H} {Fits : L → Bytes → Prop} {frame : τ → Field → Except ParseError τ} {framing : H → τ}
  {tail : H → τ × List HeaderRef → Scanner UInt8 ParseError (H × List HeaderRef)} {Good : H → τ → Prop}
  {finish : H → τ → Nat → Nat → H} {fuel : Nat} {b : Bytes}

/-- A head of either kind. -/
def headScan (maxHeadSize maxHeaders : Int) (first : Scanner UInt8 ParseError H)
    (frame : τ → Field → Except ParseError τ) (framing : H → τ)
    (tail : H → τ × List HeaderRef → Scanner UInt8 ParseError (H × List HeaderRef)) (fuel : Nat) :
    Scanner UInt8 ParseError (H × List HeaderRef) := do
  let h ← first
  let last ← fields maxHeadSize maxHeaders frame fuel (framing h)
  tail h last

theorem headScan_got (line : FirstLine first bytes head Fits) (ends : HeadEnd tail Good finish)
    (enough : b.length < fuel) {a : H × List HeaderRef} {c' : Cursor UInt8} :
    headScan maxHeadSize maxHeaders first frame framing tail fuel ⟨[], b⟩ = .got a c' ↔ ∃ l lines ending rest last,
      b = bytes l ++ (linesBytes lines ++ (ending ++ rest)) ∧ IsLineEnd ending ∧
      Fits l (linesBytes lines ++ (ending ++ rest)) ∧
      Accepted maxHeadSize maxHeaders frame (bytes l).length 0 (framing (head l)) lines last ∧ Good (head l) last ∧
      c' = ⟨bytes l ++ (linesBytes lines ++ ending), rest⟩ ∧
      a = (finish (head l) last lines.length (bytes l ++ (linesBytes lines ++ ending)).length,
        (located (bytes l).length lines).map Field.ref) := by
  unfold headScan
  simp only [bind_got, line.got, ends.got]
  constructor
  · rintro ⟨_, _, ⟨l, rest, rfl, rfl, fits, rfl⟩, ⟨last, refs⟩, c, second, good, rfl, rfl⟩
    have less : rest.length < fuel := by
      rw [length_append] at enough
      omega
    obtain ⟨lines, ending, rest, ended, ahead, rfl, accepted, refs⟩ := (fields_got less).mp second
    dsimp only at ahead accepted refs
    rw [ahead] at fits ⊢
    rw [refs, length_map, length_located]
    exact ⟨l, lines, ending, rest, last, rfl, ended, fits, accepted, good, rfl, rfl⟩
  · rintro ⟨l, lines, ending, rest, last, rfl, ended, fits, accepted, good, rfl, rfl⟩
    have less : (linesBytes lines ++ (ending ++ rest)).length < fuel := by
      rw [length_append] at enough
      omega
    refine ⟨_, _, ⟨l, _, rfl, rfl, fits, rfl⟩, (last, _), _,
      (fields_got less).mpr ⟨lines, ending, rest, ended, rfl, rfl, accepted, rfl⟩, good, rfl, ?_⟩
    rw [length_map, length_located]

theorem headScan_starved_none (line : FirstLine first bytes head Fits) (ends : HeadEnd tail Good finish)
    (enough : b.length < fuel) :
    headScan maxHeadSize maxHeaders first frame framing tail fuel ⟨[], b⟩ = .starved none ↔
      first ⟨[], b⟩ = .starved none ∨ ∃ l lines part last, b = bytes l ++ (linesBytes lines ++ part) ∧
        Fits l (linesBytes lines ++ part) ∧
        Accepted maxHeadSize maxHeaders frame (bytes l).length 0 (framing (head l)) lines last ∧ Unended part := by
  unfold headScan
  simp only [bind_starved, line.got, ends.fed, and_false, exists_false, or_false]
  apply or_congr_right
  constructor
  · rintro ⟨_, _, ⟨l, rest, rfl, rfl, fits, rfl⟩, waits⟩
    have less : rest.length < fuel := by
      rw [length_append] at enough
      omega
    obtain ⟨lines, part, last, ahead, unended, accepted⟩ := (fields_starved_none less).mp waits
    dsimp only at ahead accepted
    rw [ahead] at fits ⊢
    exact ⟨l, lines, part, last, rfl, fits, accepted, unended⟩
  · rintro ⟨l, lines, part, last, rfl, fits, accepted, unended⟩
    have less : (linesBytes lines ++ part).length < fuel := by
      rw [length_append] at enough
      omega
    exact ⟨_, _, ⟨l, _, rfl, rfl, fits, rfl⟩, (fields_starved_none less).mpr ⟨lines, part, last, rfl, unended, accepted⟩⟩

theorem headScan_fuel (line : FirstLine first bytes head Fits) {m : Nat} (enough : b.length < fuel)
    (enough' : b.length < m) : headScan maxHeadSize maxHeaders first frame framing tail fuel ⟨[], b⟩ =
      headScan maxHeadSize maxHeaders first frame framing tail m ⟨[], b⟩ := by
  unfold headScan
  rw [bind_apply, bind_apply]
  cases got : first ⟨[], b⟩ with
  | starved limit | refused e => rfl
  | got h c =>
    have shorter := (line.incremental.length_behind got).2
    dsimp only [length_nil] at shorter ⊢
    rw [bind_apply, bind_apply, fields_fuel (m := m) (by omega) (by omega)]

theorem scans_headScan (line : FirstLine first bytes head Fits) (ends : HeadEnd tail Good finish) {headEnd : H → Nat}
    (ended : ∀ h last count n, headEnd (finish h last count n) = n) :
    Scans maxHeadSize (fun b => conclude maxHeadSize b.length
        (headScan maxHeadSize maxHeaders first frame framing tail (b.length + 1) ⟨[], b⟩))
      (headScan maxHeadSize maxHeaders first frame framing tail) headEnd where
  parsed enough := by rw [headScan_fuel line (lt_succ_self _) enough]
  incremental n :=
    line.incremental.bind fun _ => (incremental_fields maxHeadSize maxHeaders frame n _).bind (ends.incremental _)
  firm n := by
    apply Scanner.Firm.bind_of_stops line.incremental
    · intro h
      exact (stops_fields maxHeadSize maxHeaders frame n _).bind_left _
    · intro h
      apply Scanner.Firm.bind_of_firm (incremental_fields maxHeadSize maxHeaders frame n _)
        (firm_fields maxHeadSize maxHeaders frame n _)
      intro last
      exact Scanner.Firm.of_blind fun c e => ends.fed h last c e
  ends := by
    intro n b a c' got
    unfold headScan at got
    simp only [bind_got, ends.got] at got
    obtain ⟨_, _, -, _, _, -, -, rfl, rfl⟩ := got
    exact ended _ _ _ _

end Head

end AvianCore.Http
