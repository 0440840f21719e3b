import AvianCore.Http.Chunked

/-!
What a peer can make the decoder of chunks take in beside the body. Sizes, line ends and trailers are bounded by the
body and the ceiling on trailers. Chunk extensions are bounded by nothing.
-/

namespace AvianCore.Http
open AvianCore.Lib List Nat

/-- What an input is made of: bytes of the body, of chunk extensions, and of framing, which are sizes, line ends and
trailers. -/
structure Layout where
  body : Nat
  extension : Nat
  framing : Nat
deriving DecidableEq, Repr

namespace Layout

/-- The bytes of a trailer section through its empty line, at the start of a line or inside one. -/
def trailerLength : Bool → Bytes → Nat
  | _, [] => 0
  | start, c :: rest =>
    if start ∧ c = cCR then min 2 (rest.length + 1)
    else if start ∧ c = cLF then 1
    else trailerLength (c = cLF) rest + 1

/-- A chunk line is digits, an extension from a semicolon to the CR, and a line end. Behind it stand as many bytes of
data as the digits say and another line end, or the trailers if they say zero. -/
def ofLines : Nat → Bytes → Layout
  | 0, _ => ⟨0, 0, 0⟩
  | fuel + 1, input =>
    let digits := input.takeWhile fun c => 0 ≤ hexValue c
    let line := input.dropWhile fun c => 0 ≤ hexValue c
    let extension := if line.head? = some cSemicolon then (line.takeWhile (· ≠ cCR)).length else 0
    let ending := line.drop extension
    let size := digits.foldl (fun n c => n * 16 + (hexValue c).toNat) 0
    let data := ending.drop 2
    if size = 0 then ⟨0, extension, digits.length + min 2 ending.length + trailerLength true data⟩
    else
      let later := ofLines fuel ((data.drop size).drop 2)
      ⟨min size data.length + later.body, extension + later.extension,
        digits.length + min 2 ending.length + min 2 (data.drop size).length + later.framing⟩

def ofInput (input : Bytes) : Layout := ofLines (input.length + 1) input

theorem ofLines_nil (fuel : Nat) : ofLines fuel [] = ⟨0, 0, 0⟩ := by cases fuel <;> rfl

end Layout

namespace ChunkedDecoder
variable {d next last : ChunkedDecoder} {c : UInt8} {input rest out : Bytes} {n k : Nat}

def Unfailed (d : ChunkedDecoder) (input : Bytes) : Prop := ∀ e, (travel feed d input).answer ≠ some (.failure e)

def Fails (d : ChunkedDecoder) (c : UInt8) : Prop := ∃ last e, d.feed c = .halt last 0 (.failure e)

theorem Unfailed.not_fails (unfailed : d.Unfailed (c :: rest)) : ¬d.Fails c := by
  rintro ⟨last, e, fails⟩
  exact unfailed e (by rw [travel_cons_halt fails])

/-- From `d` at `input` the way goes on from `last` at `rest`, with `n` bytes taken in and `k` of them decoded. -/
structure Leads (d : ChunkedDecoder) (input : Bytes) (n k : Nat) (last : ChunkedDecoder) (rest : Bytes) : Prop where
  used : (travel feed d input).used = n + (travel feed last rest).used
  state : (travel feed d input).state.decoded = (travel feed last rest).state.decoded
  answer : (travel feed d input).answer = (travel feed last rest).answer
  decoded : last.decoded = d.decoded + k

namespace Leads

theorem refl (d : ChunkedDecoder) (input : Bytes) : Leads d input 0 0 d input := ⟨(zero_add _).symm, rfl, rfl, rfl⟩

theorem trans {n' k' : Nat} {rest' : Bytes} (first : Leads d input n k next rest) (second : Leads next rest n' k' last rest') :
    Leads d input (n + n') (k + k') last rest' :=
  ⟨by rw [first.used, second.used, add_assoc], first.state.trans second.state, first.answer.trans second.answer,
    by rw [second.decoded, first.decoded, add_assoc]⟩

theorem on (goes : d.feed c = .on next out) (same : next.decoded = d.decoded) : Leads d (c :: rest) 1 0 next rest := by
  have trip := travel_cons_on goes rest
  exact ⟨by rw [trip, add_comm], by rw [trip], by rw [trip], same⟩

theorem unfailed (leads : Leads d input n k last rest) (unfailed : d.Unfailed input) : last.Unfailed rest :=
  fun e => leads.answer ▸ unfailed e

end Leads

theorem Unfailed.on (unfailed : d.Unfailed (c :: rest)) (goes : d.feed c = .on next out)
    (same : next.decoded = d.decoded) : next.Unfailed rest :=
  (Leads.on goes same).unfailed unfailed

theorem hexValue_range : ∀ c, 0 ≤ hexValue c → hexValue c < 16 ∧ c ≠ cCR ∧ c ≠ cSemicolon := by
  decide +kernel

theorem leads_digits {digits : Bytes} (hex : ∀ c ∈ digits, 0 ≤ hexValue c) (state : d.state = .size)
    (few : d.digits ≤ 15) (unfailed : d.Unfailed (digits ++ rest)) : d.digits + digits.length ≤ 15 ∧
      Leads d (digits ++ rest) digits.length 0 { d with
        remaining := digits.foldl (fun n c => n * 16 + (hexValue c).toNat) d.remaining
        digits := d.digits + digits.length } rest := by
  induction digits generalizing d with
  | nil => exact ⟨few, .refl d rest⟩
  | cons c digits ih =>
    have nonnegative := hex c mem_cons_self
    obtain ⟨small, notCR, notSemicolon⟩ := hexValue_range c nonnegative
    have less : (hexValue c).toNat < 16 := by omega
    have room : ¬15 ≤ d.digits := by
      intro full
      exact unfailed.not_fails ⟨d, .badChunk, by simp [feed, turn, state, notCR, notSemicolon, full]⟩
    have goes : d.feed c = .on { d with
        remaining := d.remaining * 16 + (hexValue c).toNat, digits := d.digits + 1 } [] := by
      simp only [feed, turn, state, if_neg notCR, if_neg notSemicolon, if_neg (not_lt.mpr nonnegative), if_neg room,
        shift_or less]
    obtain ⟨bound, later⟩ := @ih { d with remaining := _, digits := d.digits + 1 }
      (fun c member => hex c (mem_cons_of_mem _ member)) state (by dsimp only; omega) (unfailed.on goes rfl)
    have whole := (Leads.on goes rfl).trans later
    simp only [add_assoc, add_comm 1] at bound whole
    exact ⟨bound, whole⟩

theorem leads_extension {front back : Bytes} (plain : cCR ∉ front) (state : d.state = .ext) :
    Leads d (front ++ back) front.length 0 d back := by
  induction front with
  | nil => exact .refl d back
  | cons c front ih =>
    have other : c ≠ cCR := fun same => plain (same ▸ mem_cons_self)
    have goes : d.feed c = .on d [] := by
      simp only [feed, state, if_neg other]
      rw [← state]
    rw [length_cons, add_comm]
    exact (Leads.on goes rfl).trans (ih fun member => plain (mem_cons_of_mem _ member))

theorem Unfailed.skip (unfailed : d.Unfailed (c :: rest)) (skips : d.feed c = { d with state := .trailerSkip }.skip c) :
    ((d.trailerSeen + 1 : Nat) : Int) ≤ d.maxTrailerBytes ∧ d.feed c = .on { d with
      trailerSeen := d.trailerSeen + 1, state := if c = cLF then .trailerLine else .trailerSkip } [] := by
  by_cases past : d.maxTrailerBytes < (d.trailerSeen + 1 : Nat)
  · exact (unfailed.not_fails ⟨_, _, skips.trans (if_pos past)⟩).elim
  · exact ⟨not_lt.mp past, skips.trans (if_neg past)⟩

theorem travel_trailer {start : Bool} (state : d.state = if start then .trailerLine else .trailerSkip)
    (room : (d.trailerSeen : Int) ≤ max 0 d.maxTrailerBytes) (unfailed : d.Unfailed input) :
    (travel feed d input).used = Layout.trailerLength start input ∧ (travel feed d input).state.decoded = d.decoded ∧
      (d.trailerSeen + (travel feed d input).used : Int) ≤ 2 + max 0 d.maxTrailerBytes := by
  induction input generalizing d start with
  | nil => exact ⟨rfl, rfl, by simp only [travel_nil]; omega⟩
  | cons c rest ih =>
    unfold Layout.trailerLength
    by_cases ends : start = true ∧ c = cCR
    · obtain ⟨rfl, rfl⟩ := ends
      have goes : d.feed cCR = .on { d with state := .trailerCR } [] := by simp only [feed, state, if_true]
      rw [travel_cons_on goes, if_pos ⟨rfl, rfl⟩]
      rcases rest with _ | ⟨c, rest⟩
      · exact ⟨rfl, rfl, by simp only [travel_nil]; omega⟩
      obtain rfl : c = cLF := not_not.mp fun other => (unfailed.on goes rfl).not_fails
        ⟨{ d with state := .trailerCR }, .badChunk, by simp [feed, turn, other]⟩
      have halts : feed { d with state := .trailerCR } cLF = .halt { d with state := .done } 1 .finished := rfl
      rw [travel_cons_halt halts]
      exact ⟨by simp, rfl, by push_cast; omega⟩
    · rw [if_neg ends]
      by_cases last : start = true ∧ c = cLF
      · obtain ⟨rfl, rfl⟩ := last
        have halts : d.feed cLF = .halt { d with state := .done } 1 .finished := by simp [feed, state, cLF, cCR]
        rw [travel_cons_halt halts, if_pos ⟨rfl, rfl⟩]
        exact ⟨rfl, rfl, by push_cast; omega⟩
      rw [if_neg last]
      have skips : d.feed c = { d with state := .trailerSkip }.skip c := by
        cases start with
        | true => simp_all [feed]
        | false =>
          replace state : d.state = .trailerSkip := state
          simp only [feed, state]
          rw [← state]
      obtain ⟨within, goes⟩ := unfailed.skip skips
      obtain ⟨used, decoded, bound⟩ := @ih _ (decide (c = cLF)) (by simp only [decide_eq_true_eq])
        (le_max_of_le_right within) (unfailed.on goes rfl)
      rw [travel_cons_on goes]
      refine ⟨congrArg (· + 1) used, decoded, ?_⟩
      push_cast at bound ⊢
      omega

/-- A line end, as far as it is there. -/
theorem leads_crlf {mid : ChunkedDecoder} (first : ∀ c ∈ input.head?, c ≠ cCR → d.Fails c)
    (cr : d.feed cCR = .on mid []) (second : ∀ c ≠ cLF, mid.Fails c) (lf : mid.feed cLF = .on next [])
    (same : mid.decoded = d.decoded) (same' : next.decoded = mid.decoded) (unfailed : d.Unfailed input) :
    ∃ last, Leads d input (min 2 input.length) 0 last (input.drop 2) ∧ (input.length < 2 ∨ last = next) := by
  rcases input with _ | ⟨c, rest⟩
  · exact ⟨d, .refl d [], .inl two_pos⟩
  obtain rfl : c = cCR := not_not.mp fun other => unfailed.not_fails (first c rfl other)
  rcases rest with _ | ⟨c, rest⟩
  · exact ⟨mid, .on cr same, .inl one_lt_two⟩
  obtain rfl : c = cLF := not_not.mp fun other => (unfailed.on cr same).not_fails (second c other)
  rw [min_eq_left (by simp)]
  exact ⟨next, (Leads.on cr same).trans (.on lf same'), .inr rfl⟩

/-- The decoder behind a chunk line. -/
def opened (d : ChunkedDecoder) : ChunkedDecoder :=
  { d with digits := 0, state := if d.remaining = 0 then .trailerLine else .data }

theorem leads_ending (first : ∀ c ∈ input.head?, c = cCR) (goes : d.feed cCR = .on { d with state := .sizeLF } [])
    (unfailed : d.Unfailed input) : ∃ last, Leads d input (min 2 input.length) 0 last (input.drop 2) ∧
      (input.length < 2 ∨ last = d.opened) := by
  refine leads_crlf (fun c member other => absurd (first c member) other) goes (fun c other => ?_) ?_ rfl rfl unfailed
  · exact ⟨{ d with state := .sizeLF }, .badChunk, by simp [feed, turn, other]⟩
  · simp [feed, turn, opened]

theorem leads_close (state : d.state = .dataCR) (unfailed : d.Unfailed input) :
    ∃ last, Leads d input (min 2 input.length) 0 last (input.drop 2) ∧
      (input.length < 2 ∨ last = { d with state := .size }) := by
  have cr : d.feed cCR = .on { d with state := .dataLF } [] := by simp [feed, close, state]
  have lf : feed { d with state := .dataLF } cLF = .on { d with state := .size } [] := by simp [feed, turn]
  refine leads_crlf (fun c _ other => ?_) cr (fun c other => ?_) lf rfl rfl unfailed
  · exact ⟨{ d with state := .dataCR }, .badChunk, by simp [feed, close, state, other]⟩
  · exact ⟨{ d with state := .dataLF }, .badChunk, by simp [feed, turn, other]⟩

/-- What stands behind the digits of a chunk line, as far as it is there. -/
theorem leads_line {line : Bytes} (state : d.state = .size) (behind : ∀ c ∈ line.head?, hexValue c < 0)
    (unfailed : d.Unfailed line) :
    let extension := if line.head? = some cSemicolon then (line.takeWhile (· ≠ cCR)).length else 0
    let ending := line.drop extension
    ∃ last, Leads d line (extension + min 2 ending.length) 0 last (ending.drop 2) ∧
      (ending.length < 2 ∨ last = d.opened) := by
  intro extension ending
  rcases line with _ | ⟨c, rest⟩
  · exact ⟨d, .refl d [], .inl (by simp [ending])⟩
  by_cases cr : c = cCR
  · subst cr
    have none : extension = 0 := if_neg (by rw [head?_cons]; decide)
    have filled : d.digits ≠ 0 := by
      intro empty
      exact unfailed.not_fails ⟨d, .badChunk, by simp [feed, turn, state, empty]⟩
    simpa only [ending, none, drop_zero, zero_add] using
      leads_ending (by simp) (by simp [feed, turn, state, filled]) unfailed
  by_cases semicolon : c = cSemicolon
  · subst semicolon
    have filled : d.digits ≠ 0 := by
      intro empty
      exact unfailed.not_fails ⟨d, .badChunk, by simp [feed, turn, state, empty, cSemicolon, cCR]⟩
    have goes : d.feed cSemicolon = .on { d with state := .ext } [] := by
      simp [feed, turn, state, filled, cSemicolon, cCR]
    have plain : cCR ∉ rest.takeWhile (· ≠ cCR) := fun member => by simpa using mem_takeWhile_imp member
    have parts : rest.takeWhile (· ≠ cCR) ++ rest.dropWhile (· ≠ cCR) = rest := takeWhile_append_dropWhile
    have length : extension = 1 + (rest.takeWhile (· ≠ cCR)).length := by
      simp only [extension, head?_cons, if_true]
      rw [takeWhile_cons_of_pos (by decide), length_cons, add_comm]
    have cut : ending = rest.dropWhile (· ≠ cCR) := by
      have cut := congrArg (drop (rest.takeWhile (· ≠ cCR)).length) parts
      rw [drop_left] at cut
      simp only [ending, length, add_comm 1, drop_succ_cons]
      exact cut.symm
    have first := head?_dropWhile_not (· ≠ cCR) rest
    have skipped : Leads { d with state := .ext } (rest.takeWhile (· ≠ cCR) ++ rest.dropWhile (· ≠ cCR)) _ 0 _ _ :=
      leads_extension plain rfl
    rw [parts] at skipped
    obtain ⟨last, ends, after⟩ := leads_ending (fun c member => by rw [member] at first; simpa using first)
      (by simp [feed]) (skipped.unfailed (unfailed.on goes rfl))
    rw [cut, length]
    exact ⟨last, ((Leads.on goes rfl).trans skipped).trans ends, after⟩
  · refine (unfailed.not_fails ⟨d, .badChunk, ?_⟩).elim
    simp [feed, turn, state, cr, semicolon, behind c rfl]

/-- The data of a chunk and the line end behind it, as far as they are there. -/
theorem leads_chunk {m : Int} {size : Nat} {data : Bytes} (positive : 0 < size)
    (unfailed : Unfailed { ready m k with remaining := size, state := .data } data) : ∃ last,
      Leads { ready m k with remaining := size, state := .data } data
        (min size data.length + min 2 (data.drop size).length) (min size data.length) last ((data.drop size).drop 2) ∧
        ((data.drop size).drop 2 = [] ∨ size ≤ data.length ∧ last = ready m (k + size)) := by
  have trip := travel_data { ready m k with remaining := size, state := .data } rfl positive data
  rw [min_comm] at trip
  have taken : Leads { ready m k with remaining := size, state := .data } data (min size data.length)
      (min size data.length) _ (data.drop (min size data.length)) :=
    ⟨by rw [trip]; rfl, by rw [trip]; rfl, by rw [trip]; rfl, rfl⟩
  by_cases short : data.length < size
  · rw [min_eq_right short.le, drop_length] at taken
    rw [min_eq_right short.le, drop_eq_nil_of_le short.le]
    exact ⟨_, taken, .inl rfl⟩
  rw [min_eq_left (by omega)] at taken ⊢
  obtain ⟨last, ends, after⟩ := leads_close (by simp) (taken.unfailed unfailed)
  refine ⟨last, taken.trans ends, after.imp (fun little => drop_eq_nil_of_le little.le) fun same => ⟨by omega, ?_⟩⟩
  simp [same, ready]

/-- What is taken in of an input and what of it is body, as its chunk lines lay them out, with a bound for the framing. -/
structure LaidOut (m : Int) (k : Nat) (input : Bytes) (l : Layout) : Prop where
  used : (travel feed (ready m k) input).used = l.body + l.extension + l.framing
  decoded : (travel feed (ready m k) input).state.decoded = k + l.body
  framing : (l.framing : Int) ≤ 19 * l.body + 19 + max 0 m

theorem laidOut (m : Int) (k : Nat) {fuel : Nat} (enough : input.length < fuel) (unfailed : (ready m k).Unfailed input) :
    LaidOut m k input (Layout.ofLines fuel input) := by
  induction fuel generalizing k input with
  | zero => omega
  | succ fuel ih =>
    unfold Layout.ofLines
    extract_lets digits line extension ending size data later
    have parts : digits ++ line = input := takeWhile_append_dropWhile
    have first : ∀ c ∈ line.head?, hexValue c < 0 := by
      intro c member
      have stopped := head?_dropWhile_not (fun c => decide (0 ≤ hexValue c)) input
      rw [show (input.dropWhile fun c => decide (0 ≤ hexValue c)).head? = some c from member] at stopped
      simpa using stopped
    rw [← parts] at unfailed
    obtain ⟨few, hex⟩ := leads_digits (fun c member => by simpa using mem_takeWhile_imp member) rfl (zero_le 15) unfailed
    obtain ⟨last, behind, after⟩ := leads_line rfl first (hex.unfailed unfailed)
    have few : 0 + digits.length ≤ 15 := few
    have line' : Leads (ready m k) input (digits.length + (extension + min 2 ending.length)) 0 last data := by
      have whole := hex.trans behind
      rwa [parts] at whole
    rw [parts] at unfailed
    rcases after with short | open'
    · -- the line is not at its end
      have none : data = [] := drop_eq_nil_of_le (show ending.length ≤ 2 from short.le)
      have nothing : later = ⟨0, 0, 0⟩ := by simp [later, none, Layout.ofLines_nil]
      obtain ⟨used, state, -, decoded⟩ := line'
      rw [none, travel_nil] at used state
      have decoded : last.decoded = k := decoded
      rw [nothing, none, drop_nil]
      split_ifs
      all_goals refine ⟨?_, ?_, ?_⟩ <;> simp only [used, state, decoded, Layout.trailerLength, length_nil] <;> omega
    · have open' : last = { ready m k with remaining := size, state := if size = 0 then .trailerLine else .data } := open'
      subst open'
      split_ifs with zero
      · -- the last chunk
        have onwards := line'.unfailed unfailed
        obtain ⟨used, state, -, -⟩ := line'
        rw [zero] at onwards used state
        obtain ⟨taken, same, bound⟩ := @travel_trailer _ data true rfl (le_max_left 0 m) onwards
        rw [taken] at used bound
        replace bound : (0 + Layout.trailerLength true data : Int) ≤ 2 + max 0 m := bound
        exact ⟨by simp only [used]; omega, state.trans same, by push_cast; omega⟩
      · rw [if_neg zero] at line'
        obtain ⟨next, chunk, after⟩ := leads_chunk (pos_of_ne_zero zero) (line'.unfailed unfailed)
        have whole := line'.trans chunk
        have onwards := whole.unfailed unfailed
        obtain ⟨used, state, -, decoded⟩ := whole
        rcases after with none | ⟨full, rfl⟩
        · have nothing : later = ⟨0, 0, 0⟩ := by simp only [later, none, Layout.ofLines_nil]
          rw [none, travel_nil] at used state
          rw [nothing]
          have decoded : next.decoded = k + (0 + min size data.length) := decoded
          exact ⟨by simp only [used]; omega, by simp only [state, decoded]; omega, by dsimp only; omega⟩
        have shorter : ((data.drop size).drop 2).length < fuel := by
          have filled : 0 < digits.length := length_pos_iff.mpr fun empty => zero (by simp only [size, empty, foldl_nil])
          simp only [data, ending, length_drop]
          rw [← parts, length_append] at enough
          omega
        have rest : LaidOut m (k + size) _ later := ih (k + size) shorter onwards
        obtain ⟨taken, left, bound⟩ := rest
        have positive := pos_of_ne_zero zero
        rw [min_eq_left full] at used ⊢
        exact ⟨by simp only [used, taken]; omega, by simp only [state, left]; omega, by dsimp only; omega⟩

/-- The input is decoded without a failure, and no more than so many bytes are taken in for each byte of the body
and one more. -/
def TakesWithin (fresh : ChunkedDecoder) (bound : Nat) (input : Bytes) : Prop :=
  (∀ e, (fresh.decode input).outcome ≠ .failure e) →
    ∀ n, (fresh.decode input).consumed = some n → n ≤ bound * ((fresh.decode input).decoder.decoded + 1)

/-- Twenty bytes and the ceiling on trailers, for each byte of the body and one more, bound what is taken in of an input
exactly if the extensions on its chunk lines fit in what its body and its framing leave of that. -/
theorem chunk_overhead_iff (maxTrailerBytes : Int) {input : Bytes}
    (unfailed : ∀ e, (decode { maxTrailerBytes := maxTrailerBytes } input).outcome ≠ .failure e) :
    TakesWithin { maxTrailerBytes := maxTrailerBytes } (20 + maxTrailerBytes.toNat) input ↔
      (Layout.ofInput input).extension ≤ (20 + maxTrailerBytes.toNat) * ((Layout.ofInput input).body + 1) -
        ((Layout.ofInput input).body + (Layout.ofInput input).framing) := by
  have sees := decode_sees (ready maxTrailerBytes 0) input
  have goes : (ready maxTrailerBytes 0).Unfailed input := by
    intro e failed
    have outcome := sees.outcome
    rw [failed] at outcome
    exact unfailed e outcome
  have laid : LaidOut maxTrailerBytes 0 input (Layout.ofInput input) := laidOut maxTrailerBytes 0 (Nat.lt_succ_self _) goes
  generalize Layout.ofInput input = l at laid ⊢
  obtain ⟨used, decoded, framing⟩ := laid
  have consumed := sees.consumed goes
  rw [used] at consumed
  have count := sees.count
  rw [decoded, Nat.zero_add] at count
  -- what is not extension always fits
  have fits : l.body + l.framing ≤ (20 + maxTrailerBytes.toNat) * (l.body + 1) := by
    have spread : (20 + maxTrailerBytes.toNat) * (l.body + 1) =
      20 * l.body + 20 + maxTrailerBytes.toNat * l.body + maxTrailerBytes.toNat := by ring
    omega
  unfold TakesWithin
  change (_ → ∀ n, (decode (ready maxTrailerBytes 0) input).consumed = some n →
    n ≤ _ * ((decode (ready maxTrailerBytes 0) input).decoder.decoded + 1)) ↔ _
  rw [consumed, count]
  constructor
  · intro within
    have bound := within unfailed _ rfl
    omega
  · rintro within - n same
    cases same
    omega

theorem chunk_overhead_extended : TakesWithin {} (20 + 32 * 1024) (ascii "4;a=b\r\nWiki\r\n3\r\nped\r\n0\r\nt: v\r\n\r\n") := by
  refine (chunk_overhead_iff (32 * 1024) fun e => ?_).mpr (by decide)
  rw [(decode_sees _ _).outcome, show (travel feed _ _).answer = some .finished by decide]
  nofun

/-- An extension that never ends is taken in for nothing. -/
theorem chunk_extension_unbounded : ¬ ∃ K, ∀ input, TakesWithin {} K input := by
  rintro ⟨K, within⟩
  have first : feed {} 0x31 = .on { remaining := 1, digits := 1 } [] := rfl
  have second : feed { remaining := 1, digits := 1 } cSemicolon =
      .on { state := .ext, remaining := 1, digits := 1 } [] := rfl
  have plain : cCR ∉ replicate K (0x61 : UInt8) := fun member => absurd (eq_of_mem_replicate member) (by decide)
  have trip := ((Leads.on first rfl).trans (.on second rfl)).trans (@leads_extension _ _ [] plain rfl)
  rw [append_nil] at trip
  have sees := decode_sees {} (0x31 :: cSemicolon :: replicate K 0x61)
  have answer : (travel feed {} (0x31 :: cSemicolon :: replicate K 0x61)).answer = none := trip.answer
  have consumed := sees.consumed (by rw [answer]; nofun)
  have outcome := sees.outcome
  have count := sees.count
  rw [answer] at outcome
  rw [trip.used, length_replicate] at consumed
  rw [trip.state] at count
  have taken := within _ (by rw [outcome]; nofun) _ consumed
  rw [count] at taken
  simp at taken

end ChunkedDecoder
end AvianCore.Http
