import AvianCore.Http.Bytes
import AvianCore.Lib.Automaton

/-!
The chunked transfer coding (`ChunkedDecoder.swift`, `writeChunk`). The decoder skips and copies whole
runs of what it is handed; it does the same as a machine that takes one byte at a time, so it does not
matter how the bytes arrive.
-/

namespace AvianCore.Http
open AvianCore.Lib List Nat Trip

inductive ChunkState
  | size | ext | sizeLF | data | dataCR | dataLF
  | trailerLine | trailerSkip | trailerCR | done
deriving DecidableEq, Repr

structure ChunkedDecoder where
  state : ChunkState := .size
  remaining : Nat := 0
  digits : Nat := 0
  /-- Total decoded body bytes. -/
  decoded : Nat := 0
  /-- Bytes seen since the terminating chunk. -/
  trailerSeen : Nat := 0
  maxTrailerBytes : Int := 32 * 1024
deriving DecidableEq, Repr

inductive ChunkOutcome
  | needMore
  | finished
  | failure (e : ParseError)
deriving DecidableEq, Repr

/-- What a call of `decode` leaves: the bytes given to the sink, and how many bytes it says it has
consumed, unless it fails. -/
structure Decoded where
  decoder : ChunkedDecoder
  sunk : Bytes
  consumed : Option Nat
  outcome : ChunkOutcome
deriving DecidableEq, Repr

/-- One pass through the loop of `decode`. -/
inductive Turn
  | goOn (next : ChunkedDecoder) (sunk : Bytes) (taken : Nat)
  | finish (last : ChunkedDecoder) (taken : Nat)
  | fail (last : ChunkedDecoder) (e : ParseError)

namespace ChunkedDecoder

/-- The loop body, at a byte `c` with the bytes `rest` behind it. -/
def turn (d : ChunkedDecoder) (c : UInt8) (rest : Bytes) : Turn :=
  match d.state with
  | .size =>
    if c = cCR then
      if d.digits = 0 then .fail d .badChunk else .goOn { d with state := .sizeLF } [] 1
    else if c = cSemicolon then
      if d.digits = 0 then .fail d .badChunk else .goOn { d with state := .ext } [] 1
    else if hexValue c < 0 then .fail d .badChunk
    else if 15 ≤ d.digits then .fail d .badChunk
    else
      .goOn { d with
        remaining := (d.remaining <<< 4) ||| (hexValue c).toNat, digits := d.digits + 1 } [] 1
  | .ext =>
    match (c :: rest).idxOf? cCR with
    | none => .goOn d [] (rest.length + 1)
    | some idx => .goOn { d with state := .sizeLF } [] (idx + 1)
  | .sizeLF =>
    if c ≠ cLF then .fail d .badChunk
    else
      .goOn { d with digits := 0, state := if d.remaining = 0 then .trailerLine else .data } [] 1
  | .data =>
    let take := min (rest.length + 1) d.remaining
    .goOn { d with
      decoded := d.decoded + take
      remaining := d.remaining - take
      state := if d.remaining - take = 0 then .dataCR else .data } ((c :: rest).take take) take
  | .dataCR => if c ≠ cCR then .fail d .badChunk else .goOn { d with state := .dataLF } [] 1
  | .dataLF => if c ≠ cLF then .fail d .badChunk else .goOn { d with state := .size } [] 1
  | .trailerLine =>
    if c = cCR then .goOn { d with state := .trailerCR } [] 1
    else if c = cLF then .finish { d with state := .done } 1
    else .goOn { d with state := .trailerSkip } [] 0
  | .trailerSkip =>
    let idx := (c :: rest).idxOf? cLF
    let take := idx.elim (rest.length + 1) (· + 1)
    let seen := { d with trailerSeen := d.trailerSeen + take }
    if d.maxTrailerBytes < (d.trailerSeen + take : Nat) then .fail seen .headTooLarge
    else if idx = none then .goOn seen [] take
    else .goOn { seen with state := .trailerLine } [] take
  | .trailerCR =>
    if c ≠ cLF then .fail d .badChunk else .finish { d with state := .done } 1
  | .done => .finish d 0

def weight (d : ChunkedDecoder) : Nat :=
  match d.state with
  | .data => if d.remaining = 0 then 1 else 0
  | .trailerLine => 1
  | _ => 0

theorem weight_le (d : ChunkedDecoder) : d.weight ≤ 1 := by
  unfold weight
  split
  · split
    · exact le_rfl
    · exact zero_le _
  · exact le_rfl
  · exact zero_le _

variable {c : UInt8} {taken : Nat} {d next : ChunkedDecoder} {rest sunk : Bytes}

theorem turn_taken (turns : d.turn c rest = .goOn next sunk taken) :
    0 < taken ∨ taken = 0 ∧ next.weight < d.weight := by
  unfold turn at turns
  cases state : d.state with
  | data =>
    simp only [state, Turn.goOn.injEq] at turns
    obtain ⟨rfl, -, rfl⟩ := turns
    by_cases empty : d.remaining = 0
    · refine .inr ⟨by omega, ?_⟩
      simp [weight, state, empty]
    · exact .inl (by omega)
  | trailerLine =>
    simp only [state] at turns
    split at turns
    · cases turns
      exact .inl one_pos
    split at turns
    · cases turns
    · cases turns
      exact .inr ⟨rfl, by simp [weight, state]⟩
  | trailerSkip =>
    simp only [state] at turns
    left
    split at turns
    · cases turns
    split at turns
    · cases turns
      cases (c :: rest).idxOf? cLF <;> simp
    · cases turns
      cases (c :: rest).idxOf? cLF <;> simp
  | ext =>
    simp only [state] at turns
    left
    split at turns
    · cases turns
      omega
    · cases turns
      omega
  | size =>
    simp only [state] at turns
    left
    split at turns
    · split at turns <;> cases turns
      exact one_pos
    split at turns
    · split at turns <;> cases turns
      exact one_pos
    split at turns
    · cases turns
    · split at turns <;> cases turns
      exact one_pos
  | done =>
    simp only [state] at turns
    cases turns
  | trailerCR =>
    simp only [state] at turns
    split at turns <;> cases turns
  | _ =>
    simp only [state] at turns
    left
    split at turns <;> cases turns
    exact one_pos

theorem turn_decreases (turns : d.turn c rest = .goOn next sunk taken) :
    2 * ((c :: rest).drop taken).length + next.weight < 2 * (c :: rest).length + d.weight := by
  rw [length_drop, length_cons]
  have light := next.weight_le
  rcases turn_taken turns with some | ⟨none, lighter⟩ <;> omega

/-- `decode` on the bytes it is handed. -/
def decode (d : ChunkedDecoder) : Bytes → Decoded
  | [] => ⟨d, [], some 0, .needMore⟩
  | c :: rest =>
    match _ : d.turn c rest with
    | .fail last e => ⟨last, [], none, .failure e⟩
    | .finish last taken => ⟨last, [], some taken, .finished⟩
    | .goOn next sunk taken =>
      let later := next.decode ((c :: rest).drop taken)
      ⟨later.decoder, sunk ++ later.sunk, later.consumed.map (taken + ·), later.outcome⟩
termination_by input => 2 * input.length + d.weight
decreasing_by exact turn_decreases ‹_›

/-- The pieces of a body fed one after another, until there is an outcome. -/
def decodeAll (d : ChunkedDecoder) : List Bytes → Decoded
  | [] => ⟨d, [], some 0, .needMore⟩
  | piece :: pieces =>
    let first := d.decode piece
    match first.outcome with
    | .needMore =>
      let later := first.decoder.decodeAll pieces
      ⟨later.decoder, first.sunk ++ later.sunk,
        first.consumed.bind fun n => later.consumed.map (n + ·), later.outcome⟩
    | _ => first

/-- What ends a body. -/
inductive Ending
  | finished
  | failure (e : ParseError)
deriving DecidableEq, Repr

def Ending.outcome : Option Ending → ChunkOutcome
  | none => .needMore
  | some .finished => .finished
  | some (.failure e) => .failure e

def skip (d : ChunkedDecoder) (c : UInt8) : Move ChunkedDecoder UInt8 Ending :=
  let seen := { d with trailerSeen := d.trailerSeen + 1 }
  if d.maxTrailerBytes < (d.trailerSeen + 1 : Nat) then .halt seen 0 (.failure .headTooLarge)
  else .on { seen with state := if c = cLF then .trailerLine else .trailerSkip } []

def close (d : ChunkedDecoder) (c : UInt8) : Move ChunkedDecoder UInt8 Ending :=
  if c ≠ cCR then .halt { d with state := .dataCR } 0 (.failure .badChunk)
  else .on { d with state := .dataLF } []

def feed (d : ChunkedDecoder) (c : UInt8) : Move ChunkedDecoder UInt8 Ending :=
  match d.state with
  | .ext => .on { d with state := if c = cCR then .sizeLF else .ext } []
  | .data =>
    match d.remaining with
    | 0 => d.close c
    | n + 1 =>
      .on { d with
        decoded := d.decoded + 1, remaining := n, state := if n = 0 then .dataCR else .data } [c]
  | .dataCR => d.close c
  | .trailerLine =>
    if c = cCR then .on { d with state := .trailerCR } []
    else if c = cLF then .halt { d with state := .done } 1 .finished
    else { d with state := .trailerSkip }.skip c
  | .trailerSkip => d.skip c
  | _ =>
    match d.turn c [] with
    | .goOn next sunk _ => .on next sunk
    | .finish last taken => .halt last taken .finished
    | .fail last e => .halt last 0 (.failure e)

/-- What a caller sees of a decoded body, told by the machine. -/
structure Sees (decoded : Decoded) (trip : Trip ChunkedDecoder UInt8 Ending) : Prop where
  sunk : decoded.sunk = trip.out
  count : decoded.decoder.decoded = trip.state.decoded
  outcome : decoded.outcome = Ending.outcome trip.answer
  consumed : (∀ e, trip.answer ≠ some (.failure e)) → decoded.consumed = some trip.used
  decoder : trip.answer = none → decoded.decoder = trip.state

theorem travel_ext (d : ChunkedDecoder) (state : d.state = .ext) (input : Bytes) : travel feed d input =
    match input.idxOf? cCR with
    | none => ⟨d, [], input.length, none⟩
    | some idx => (travel feed { d with state := .sizeLF } (input.drop (idx + 1))).after [] (idx + 1) := by
  induction input with
  | nil => rfl
  | cons c rest ih =>
    have moves : d.feed c = .on { d with state := if c = cCR then .sizeLF else .ext } [] := by simp only [feed, state]
    rw [travel_cons_on moves, List.idxOf?_cons]
    by_cases ends : c = cCR
    · simp only [ends, beq_self_eq_true, if_true, drop_succ_cons, drop_zero]
      exact (after_one _ _).symm
    have same : { d with state := ChunkState.ext } = d := by rw [← state]
    simp only [ends, beq_iff_eq, if_false, same, ih]
    cases rest.idxOf? cCR with
    | none => rfl
    | some idx =>
      simp only [Option.map_some, drop_succ_cons]
      exact after_after _ _ _ _

theorem travel_data (d : ChunkedDecoder) (state : d.state = .data) (more : 0 < d.remaining) (input : Bytes) :
    travel feed d input = (travel feed { d with
        decoded := d.decoded + min input.length d.remaining
        remaining := d.remaining - min input.length d.remaining
        state := if d.remaining - min input.length d.remaining = 0 then .dataCR else .data }
        (input.drop (min input.length d.remaining))).after
          (input.take (min input.length d.remaining)) (min input.length d.remaining) := by
  induction input generalizing d with
  | nil =>
    have same : { d with
        decoded := d.decoded + 0
        remaining := d.remaining - 0
        state := if d.remaining - 0 = 0 then ChunkState.dataCR else .data } = d := by
      rw [Nat.sub_zero, if_neg (by omega), Nat.add_zero, ← state]
    simp only [length_nil, zero_min, drop_zero, take_zero, same]
    rfl
  | cons c rest ih =>
    obtain ⟨n, count⟩ : ∃ n, d.remaining = n + 1 := ⟨d.remaining - 1, by omega⟩
    have moves : d.feed c = .on { d with
        decoded := d.decoded + 1
        remaining := n
        state := if n = 0 then .dataCR else .data } [c] := by
      simp only [feed, state, count]
    have take : min (c :: rest).length d.remaining = min rest.length n + 1 := by
      rw [length_cons, count]
      omega
    rw [travel_cons_on moves, take, drop_succ_cons, take_succ_cons]
    by_cases last : n = 0
    · subst last
      simp only [min_zero, count]
      exact (after_one _ _).symm
    have later := ih { d with
        decoded := d.decoded + 1
        remaining := n
        state := if n = 0 then .dataCR else .data } (by rw [if_neg last]) (by show 0 < n; omega)
    rw [later, count]
    simp only [Nat.add_sub_add_right, Nat.add_assoc, Nat.add_comm 1]
    exact after_after _ _ _ _

def fieldLength (input : Bytes) : Nat := (input.idxOf? cLF).elim input.length (· + 1)

theorem fieldLength_cons (other : c ≠ cLF) (rest : Bytes) : fieldLength (c :: rest) = fieldLength rest + 1 := by
  simp only [fieldLength, List.idxOf?_cons, beq_iff_eq, other, if_false, length_cons]
  cases rest.idxOf? cLF <;> rfl

theorem travel_skip (d : ChunkedDecoder) (state : d.state = .trailerSkip) (input : Bytes)
    (within : (d.trailerSeen + fieldLength input : Nat) ≤ d.maxTrailerBytes) :
    travel feed d input = (travel feed { d with
        trailerSeen := d.trailerSeen + fieldLength input
        state := if input.idxOf? cLF = none then .trailerSkip else .trailerLine }
        (input.drop (fieldLength input))).after [] (fieldLength input) := by
  induction input generalizing d with
  | nil =>
    have same : { d with trailerSeen := d.trailerSeen + 0, state := ChunkState.trailerSkip } = d := by
      rw [Nat.add_zero, ← state]
    show travel feed d [] = (travel feed
      { d with trailerSeen := d.trailerSeen + 0, state := ChunkState.trailerSkip } []).after [] 0
    rw [same]
    rfl
  | cons c rest ih =>
    by_cases ends : c = cLF
    · have length : fieldLength (c :: rest) = 1 := by simp [fieldLength, List.idxOf?_cons, ends]
      rw [length] at within ⊢
      have moves : d.feed c = .on { d with
          trailerSeen := d.trailerSeen + 1, state := .trailerLine } [] := by
        simp only [feed, state, skip, if_neg (not_lt.mpr within), ends, if_true]
      rw [travel_cons_on moves]
      simp only [List.idxOf?_cons, ends, beq_self_eq_true, if_true, drop_succ_cons, drop_zero, reduceCtorEq, if_false]
      exact (after_one _ _).symm
    · rw [fieldLength_cons ends] at within ⊢
      have first : ¬ d.maxTrailerBytes < ((d.trailerSeen + 1 : Nat) : Int) := by omega
      have moves : d.feed c = .on { d with
          trailerSeen := d.trailerSeen + 1, state := .trailerSkip } [] := by
        simp only [feed, state, skip, if_neg first, ends, if_false]
      have later := ih { d with trailerSeen := d.trailerSeen + 1, state := .trailerSkip } rfl
        (by show ((d.trailerSeen + 1 + fieldLength rest : Nat) : Int) ≤ d.maxTrailerBytes; omega)
      have found : ((c :: rest).idxOf? cLF = none) ↔ rest.idxOf? cLF = none := by simp [List.idxOf?_cons, ends]
      rw [travel_cons_on moves, later]
      simp only [found, drop_succ_cons, Nat.add_assoc, Nat.add_comm 1]
      exact after_after _ _ _ _

theorem travel_skip_past (d : ChunkedDecoder) (state : d.state = .trailerSkip) (input : Bytes)
    (filled : input ≠ []) (past : d.maxTrailerBytes < (d.trailerSeen + fieldLength input : Nat)) :
    ∃ last used, travel feed d input = ⟨last, [], used, some (.failure .headTooLarge)⟩ ∧ last.decoded = d.decoded := by
  induction input generalizing d with
  | nil => exact absurd rfl filled
  | cons c rest ih =>
    by_cases first : d.maxTrailerBytes < ((d.trailerSeen + 1 : Nat) : Int)
    · have moves : d.feed c = .halt { d with trailerSeen := d.trailerSeen + 1 } 0 (.failure .headTooLarge) := by
        simp only [feed, state, skip, if_pos first]
      exact ⟨_, _, travel_cons_halt moves rest, rfl⟩
    have other : c ≠ cLF := by
      rintro rfl
      have length : fieldLength (cLF :: rest) = 1 := by simp [fieldLength, List.idxOf?_cons]
      rw [length] at past
      exact first past
    rw [fieldLength_cons other] at past
    have moves : d.feed c = .on { d with
        trailerSeen := d.trailerSeen + 1, state := .trailerSkip } [] := by
      simp only [feed, state, skip, if_neg first, other, if_false]
    have more : rest ≠ [] := by
      rintro rfl
      exact first past
    obtain ⟨last, used, halts, same⟩ :=
      ih { d with trailerSeen := d.trailerSeen + 1, state := .trailerSkip } rfl more (by
        show d.maxTrailerBytes < ((d.trailerSeen + 1 + fieldLength rest : Nat) : Int)
        omega)
    exact ⟨last, used + 1, by rw [travel_cons_on moves, halts]; rfl, same⟩

def ChunkState.single : ChunkState → Bool
  | .ext => false
  | .data => false
  | .dataCR => false
  | .trailerLine => false
  | .trailerSkip => false
  | _ => true

theorem feed_single {d : ChunkedDecoder} (single : ChunkState.single d.state = true) (c : UInt8) (rest : Bytes) :
    d.feed c =
      match d.turn c rest with
      | .goOn next sunk _ => .on next sunk
      | .finish last taken => .halt last taken .finished
      | .fail last e => .halt last 0 (.failure e) := by
  cases state : d.state with
  | ext | data | dataCR | trailerLine | trailerSkip => simp [state, ChunkState.single] at single
  | _ => simp only [feed, turn, state]

theorem turn_single_taken (single : ChunkState.single d.state = true) (turns : d.turn c rest = .goOn next sunk taken) :
    taken = 1 := by
  cases state : d.state with
  | ext | data | dataCR | trailerLine | trailerSkip => simp [state, ChunkState.single] at single
  | _ =>
    simp only [turn, state] at turns
    repeat' split at turns
    all_goals cases turns
    all_goals rfl

theorem travel_goOn (turns : d.turn c rest = .goOn next sunk taken) :
    travel feed d (c :: rest) = (travel feed next ((c :: rest).drop taken)).after sunk taken := by
  by_cases single : ChunkState.single d.state = true
  · have moves := feed_single single c rest
    rw [turns] at moves
    rw [turn_single_taken single turns, travel_cons_on moves, after_one]
    rfl
  unfold turn at turns
  cases state : d.state with
  | ext =>
    rw [travel_ext d state]
    simp only [state] at turns
    split at turns
    next absent =>
      cases turns
      rw [drop_of_length_le (by simp)]
      simp [Trip.after]
    next idx found =>
      cases turns
      rfl
  | data =>
    simp only [state, Turn.goOn.injEq] at turns
    obtain ⟨rfl, rfl, rfl⟩ := turns
    by_cases more : 0 < d.remaining
    · exact travel_data d state more (c :: rest)
    have none : d.remaining = 0 := by omega
    have same : d.feed c = { d with
        decoded := d.decoded + 0, remaining := 0, state := .dataCR }.feed c := by
      simp only [feed, state, none, close, Nat.add_zero]
    simp only [none, min_zero, drop_zero, take_zero, Nat.sub_zero, if_true]
    rw [travel_congr same]
    simp [Trip.after]
  | dataCR =>
    simp only [state] at turns
    split at turns
    · cases turns
    next ends =>
      cases turns
      have moves : d.feed c = .on { d with state := .dataLF } [] := by simp only [feed, state, close, if_neg ends]
      rw [travel_cons_on moves, after_one]
      rfl
  | trailerLine =>
    simp only [state] at turns
    split at turns
    next ends =>
      cases turns
      have moves : d.feed c = .on { d with state := .trailerCR } [] := by simp only [feed, state, if_pos ends]
      rw [travel_cons_on moves, after_one]
      rfl
    next other =>
      split at turns
      · cases turns
      next other' =>
        cases turns
        have same : d.feed c = { d with state := .trailerSkip }.feed c := by
          simp only [feed, state, if_neg other, if_neg other']
        rw [travel_congr same]
        simp [Trip.after]
  | trailerSkip =>
    simp only [state] at turns
    have length : ((c :: rest).idxOf? cLF).elim (rest.length + 1) (· + 1) = fieldLength (c :: rest) := rfl
    rw [length] at turns
    split at turns
    · cases turns
    next within =>
      rw [not_lt] at within
      rw [travel_skip d state _ within]
      split at turns
      next absent =>
        cases turns
        rw [if_pos absent, ← state]
      next found =>
        cases turns
        rw [if_neg found]
  | _ => simp [state, ChunkState.single] at single

theorem travel_finish {d last : ChunkedDecoder} {rest : Bytes} (turns : d.turn c rest = .finish last taken) :
    travel feed d (c :: rest) = ⟨last, [], taken, some .finished⟩ := by
  by_cases single : ChunkState.single d.state = true
  · have moves := feed_single single c rest
    rw [turns] at moves
    exact travel_cons_halt moves rest
  unfold turn at turns
  cases state : d.state with
  | ext =>
    simp only [state] at turns
    split at turns <;> cases turns
  | data =>
    simp only [state] at turns
    cases turns
  | dataCR =>
    simp only [state] at turns
    split at turns <;> cases turns
  | trailerLine =>
    simp only [state] at turns
    split at turns
    · cases turns
    next other =>
      split at turns
      next ends =>
        cases turns
        have moves : d.feed c = .halt { d with state := .done } 1 .finished := by
          simp only [feed, state, if_neg other, if_pos ends]
        exact travel_cons_halt moves rest
      · cases turns
  | trailerSkip =>
    simp only [state] at turns
    split at turns
    · cases turns
    · split at turns <;> cases turns
  | _ => simp [state, ChunkState.single] at single

theorem travel_fail {d last : ChunkedDecoder} {rest : Bytes} {e : ParseError} (turns : d.turn c rest = .fail last e) :
    ∃ last' used, travel feed d (c :: rest) = ⟨last', [], used, some (.failure e)⟩ ∧ last'.decoded = last.decoded := by
  by_cases single : ChunkState.single d.state = true
  · have moves := feed_single single c rest
    rw [turns] at moves
    exact ⟨last, 0, travel_cons_halt moves rest, rfl⟩
  unfold turn at turns
  cases state : d.state with
  | ext =>
    simp only [state] at turns
    split at turns <;> cases turns
  | data =>
    simp only [state] at turns
    cases turns
  | dataCR =>
    simp only [state] at turns
    split at turns
    next other =>
      cases turns
      have moves : d.feed c = .halt { d with state := .dataCR } 0 (.failure .badChunk) := by
        simp only [feed, state, close, if_pos other]
      exact ⟨_, 0, travel_cons_halt moves rest, rfl⟩
    · cases turns
  | trailerLine =>
    simp only [state] at turns
    split at turns
    · cases turns
    · split at turns <;> cases turns
  | trailerSkip =>
    simp only [state] at turns
    split at turns
    next past =>
      cases turns
      exact travel_skip_past d state (c :: rest) (cons_ne_nil _ _) past
    · split at turns <;> cases turns
  | _ => simp [state, ChunkState.single] at single

theorem decode_sees (d : ChunkedDecoder) (input : Bytes) : Sees (d.decode input) (travel feed d input) := by
  fun_induction decode d input with
  | case1 d => exact ⟨rfl, rfl, rfl, fun _ => rfl, fun _ => rfl⟩
  | case2 d c rest last e turns =>
    obtain ⟨last', used, halts, count⟩ := travel_fail turns
    rw [halts]
    refine ⟨rfl, count.symm, rfl, ?_, ?_⟩
    · intro others
      exact absurd rfl (others e)
    · intro on
      cases on
  | case3 d c rest last taken turns =>
    rw [travel_finish turns]
    refine ⟨rfl, rfl, rfl, fun _ => rfl, ?_⟩
    intro on
    cases on
  | case4 d c rest next sunk taken turns later ih =>
    rw [travel_goOn turns]
    refine ⟨congrArg (sunk ++ ·) ih.sunk, ih.count, ih.outcome, ?_, ih.decoder⟩
    intro unfailed
    show later.consumed.map (taken + ·) = _
    rw [ih.consumed unfailed]
    rfl

theorem decodeAll_sees (d : ChunkedDecoder) (pieces : List Bytes) :
    Sees (d.decodeAll pieces) (travel feed d pieces.flatten) := by
  induction pieces generalizing d with
  | nil => exact ⟨rfl, rfl, rfl, fun _ => rfl, fun _ => rfl⟩
  | cons piece pieces ih =>
    have first := d.decode_sees piece
    rw [flatten_cons, travel_append]
    unfold decodeAll followed
    cases halted : (travel feed d piece).answer with
    | none =>
      have outcome : (d.decode piece).outcome = .needMore := by
        rw [first.outcome, halted]
        rfl
      have later := ih (travel feed d piece).state
      have consumed := first.consumed (by rw [halted]; intro e same; cases same)
      simp only [outcome]
      rw [first.decoder halted]
      refine ⟨?_, later.count, later.outcome, ?_, later.decoder⟩
      · show (d.decode piece).sunk ++ _ = _
        rw [first.sunk, later.sunk]
      · intro unfailed
        show (d.decode piece).consumed.bind _ = _
        rw [consumed, later.consumed unfailed]
        rfl
    | some ending =>
      have stays : (d.decodeAll (piece :: pieces)) = d.decode piece := by
        have outcome := first.outcome
        rw [halted] at outcome
        unfold decodeAll
        cases ending <;> simp only [Ending.outcome] at outcome <;> simp only [outcome]
      unfold decodeAll at stays
      rw [stays]
      exact first

/-- However a body is cut into pieces, what the sink is given, the count of decoded bytes, the outcome
and, when the body is finished, how much of the input belongs to it are those of the whole. -/
theorem decode_split (maxTrailerBytes : Int) (pieces : List Bytes) :
    let fresh : ChunkedDecoder := { maxTrailerBytes := maxTrailerBytes }
    let split := fresh.decodeAll pieces
    let whole := fresh.decode pieces.flatten
    split.sunk = whole.sunk ∧ split.decoder.decoded = whole.decoder.decoded ∧
      split.outcome = whole.outcome ∧
      (whole.outcome = .finished → split.consumed = whole.consumed ∧ whole.consumed ≠ none) := by
  intro fresh split whole
  have pieceByPiece : Sees split _ := fresh.decodeAll_sees pieces
  have atOnce : Sees whole _ := fresh.decode_sees pieces.flatten
  refine ⟨?_, ?_, ?_, ?_⟩
  · rw [pieceByPiece.sunk, atOnce.sunk]
  · rw [pieceByPiece.count, atOnce.count]
  · rw [pieceByPiece.outcome, atOnce.outcome]
  · intro finished
    have unfailed : ∀ e, (travel feed fresh pieces.flatten).answer ≠ some (.failure e) := by
      intro e failed
      rw [atOnce.outcome, failed] at finished
      cases finished
    rw [pieceByPiece.consumed unfailed, atOnce.consumed unfailed]
    exact ⟨rfl, by simp⟩

end ChunkedDecoder

def writeChunk (chunk : Bytes) : Bytes := writeHex chunk.length ++ crlf ++ chunk ++ crlf

def writeLastChunk : Bytes := ascii "0\r\n\r\n"

namespace ChunkedDecoder

theorem shift_or {r v : Nat} (less : v < 16) : (r <<< 4) ||| v = r * 16 + v := by
  rw [← shiftLeft_add_eq_or_of_lt (by omega), shiftLeft_eq]

theorem travel_digits (d : ChunkedDecoder) (state : d.state = .size) (digits : List Nat)
    (valid : ∀ v ∈ digits, v < 16) (few : d.digits + digits.length ≤ 15) :
    travel feed d (digits.map hexDigit) = ⟨{ d with
        remaining := digits.foldl (fun r v => r * 16 + v) d.remaining
        digits := d.digits + digits.length }, [], digits.length, none⟩ := by
  induction digits generalizing d with
  | nil => rfl
  | cons v rest ih =>
    have less := valid v mem_cons_self
    have value := hexValue_hexDigit less
    obtain ⟨notCR, notSemicolon⟩ := hexDigit_ne less
    rw [length_cons] at few
    have moves : d.feed (hexDigit v) = .on { d with
        remaining := d.remaining * 16 + v, digits := d.digits + 1 } [] := by
      have fewer : ¬ 15 ≤ d.digits := by omega
      have nonnegative : ¬ ((v : Int) < 0) := by omega
      simp only [feed, turn, state, if_neg notCR, if_neg notSemicolon, value, if_neg nonnegative,
        if_neg fewer, Int.toNat_natCast, shift_or less]
    have later := ih { d with remaining := d.remaining * 16 + v, digits := d.digits + 1 } state
      (fun w member => valid w (mem_cons_of_mem _ member)) (by show d.digits + 1 + _ ≤ 15; omega)
    rw [map_cons, travel_cons_on moves, later]
    simp only [foldl_cons, length_cons, Trip.mk.injEq, append_nil, and_true, ChunkedDecoder.mk.injEq, true_and]
    omega

theorem travel_writeHex (d : ChunkedDecoder) (state : d.state = .size) (remaining : d.remaining = 0)
    (digits : d.digits = 0) {v : Nat} (positive : 0 < v) (fits : v < 2 ^ 60) :
    ∃ n, 0 < n ∧ travel feed d (writeHex v) =
      ⟨{ d with remaining := v, digits := n }, [], (writeHex v).length, none⟩ := by
  have written : writeHex v = ((lowDigits 16 16 v).reverse).map hexDigit := by
    rw [writeHex, if_neg (by omega), map_reverse]
  have valid : ∀ w ∈ (lowDigits 16 16 v).reverse, w < 16 := by
    intro w member
    exact lowDigits_lt (by decide) 16 v w (mem_reverse.mp member)
  have few : (lowDigits 16 16 v).reverse.length ≤ 15 := by
    rw [length_reverse]
    exact length_lowDigits_le (by omega)
  have sum : (lowDigits 16 16 v).reverse.foldl (fun r w => r * 16 + w) 0 = v := by
    rw [foldl_reverse_digits, ofDigits_lowDigits (by omega)]
  have nonempty : 0 < (lowDigits 16 16 v).reverse.length := by
    rw [length_reverse, lowDigits, if_pos positive]
    exact succ_pos _
  refine ⟨_, nonempty, ?_⟩
  rw [written, travel_digits d state _ valid (by omega), remaining, sum, digits, zero_add, length_map]

def ready (maxTrailerBytes : Int) (decoded : Nat) : ChunkedDecoder :=
  { decoded := decoded, maxTrailerBytes := maxTrailerBytes }

theorem travel_writeChunk (maxTrailerBytes : Int) (decoded : Nat) {chunk : Bytes}
    (filled : chunk ≠ []) (fits : chunk.length < 2 ^ 60) :
    travel feed (ready maxTrailerBytes decoded) (writeChunk chunk) =
      ⟨ready maxTrailerBytes (decoded + chunk.length), chunk, (writeChunk chunk).length, none⟩ := by
  have positive : 0 < chunk.length := length_pos_iff.mpr filled
  obtain ⟨n, some, size⟩ := travel_writeHex (ready maxTrailerBytes decoded) rfl rfl rfl positive fits
  have line : travel feed { ready maxTrailerBytes decoded with
      remaining := chunk.length, digits := n } crlf =
      ⟨{ ready maxTrailerBytes decoded with remaining := chunk.length, state := .data }, [], 2, none⟩ := by
    have digits : n ≠ 0 := by omega
    have nonzero : chunk.length ≠ 0 := by omega
    simp [travel, feed, turn, ready, crlf, digits, nonzero, cCR, cLF]
  have body : travel feed { ready maxTrailerBytes decoded with
      remaining := chunk.length, state := .data } chunk =
      ⟨{ ready maxTrailerBytes (decoded + chunk.length) with state := .dataCR }, chunk, chunk.length, none⟩ := by
    rw [travel_data _ rfl positive]
    simp only [min_self, drop_length, take_length, travel_nil]
    simp [Trip.after, ready]
  have tail : travel feed { ready maxTrailerBytes (decoded + chunk.length) with state := .dataCR } crlf =
      ⟨ready maxTrailerBytes (decoded + chunk.length), [], 2, none⟩ := by
    simp [travel, feed, turn, close, ready, crlf, cCR, cLF]
  unfold writeChunk
  rw [append_assoc, append_assoc, travel_append_on size, travel_append_on line, travel_append_on body, tail]
  simp only [Trip.after, nil_append, append_nil, length_append, Trip.mk.injEq, true_and, and_true]
  rfl

theorem travel_chunks (maxTrailerBytes : Int) (decoded : Nat) (chunks : List Bytes)
    (each : ∀ chunk ∈ chunks, chunk ≠ [] ∧ chunk.length < 2 ^ 60) :
    travel feed (ready maxTrailerBytes decoded) (chunks.flatMap writeChunk) =
      ⟨ready maxTrailerBytes (decoded + chunks.flatten.length), chunks.flatten,
        (chunks.flatMap writeChunk).length, none⟩ := by
  induction chunks generalizing decoded with
  | nil => rfl
  | cons chunk rest ih =>
    obtain ⟨filled, fits⟩ := each chunk mem_cons_self
    have later := ih (decoded + chunk.length) fun other member =>
      each other (mem_cons_of_mem _ member)
    rw [flatMap_cons, travel_append_on (travel_writeChunk maxTrailerBytes decoded filled fits), later]
    simp only [Trip.after, flatten_cons, length_append, Nat.add_assoc]

/-- A body that was written is read back, and what follows it is left. -/
theorem decode_written (maxTrailerBytes : Int) (chunks : List Bytes)
    (each : ∀ chunk ∈ chunks, chunk ≠ [] ∧ chunk.length < 2 ^ 60) (following : Bytes) :
    let written := chunks.flatMap writeChunk ++ writeLastChunk
    let decoded := ({ maxTrailerBytes := maxTrailerBytes } : ChunkedDecoder).decode (written ++ following)
    decoded.sunk = chunks.flatten ∧ decoded.outcome = .finished ∧ decoded.consumed = some written.length ∧
      (written ++ following).drop written.length = following := by
  intro written decoded
  have sees : Sees decoded (travel feed (ready maxTrailerBytes 0) (written ++ following)) := decode_sees _ _
  have ends : travel feed (ready maxTrailerBytes (0 + chunks.flatten.length)) (writeLastChunk ++ following) =
        ⟨{ ready maxTrailerBytes (0 + chunks.flatten.length) with state := .done }, [], 5, some .finished⟩ := by
    have bytes : writeLastChunk = [cZero, cCR, cLF, cCR, cLF] := by decide
    rw [bytes]
    simp [travel, feed, turn, ready, hexValue, cZero, cCR, cLF, cSemicolon]
  have goes := travel_append_on (travel_chunks maxTrailerBytes 0 chunks each) (writeLastChunk ++ following)
  rw [ends, ← List.append_assoc] at goes
  rw [show written ++ following = chunks.flatMap writeChunk ++ writeLastChunk ++ following from rfl, goes] at sees
  refine ⟨?_, sees.outcome, ?_, List.drop_left⟩
  · rw [sees.sunk]
    simp [Trip.after]
  · rw [sees.consumed (by intro e same; cases same)]
    simp [Trip.after, written, List.length_append]
    rfl

theorem decode_written_hello :
    let decoded := ({} : ChunkedDecoder).decode
      (ascii "5\r\nhello\r\n1\r\n!\r\n0\r\n\r\n" ++ ascii "GET")
    decoded.sunk = ascii "hello!" ∧ decoded.outcome = .finished ∧ decoded.consumed = some 21 := by
  obtain ⟨sunk, outcome, consumed, -⟩ := decode_written (32 * 1024) [ascii "hello", ascii "!"]
    (by decide) (ascii "GET")
  exact ⟨sunk, outcome, consumed⟩

end ChunkedDecoder

end AvianCore.Http
