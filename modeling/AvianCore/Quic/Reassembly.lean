import AvianCore.Lib.Segment
import AvianCore.Quic.Stream

/-!
Reassembly. The fragments of one byte sequence are accepted in any order; what has been put in
order is a prefix of the sequence, and what is held early are disjoint pieces of the rest.
-/

namespace AvianCore.Quic
open AvianCore.Lib List

/-- Pieces of `S` that are held in ascending order between `low` and `high`, none of them empty
and none overlapping the next. -/
def Held (S : Nat → UInt8) (high : Nat) : Nat → List EarlyPiece → Prop
  | _, [] => True
  | low, piece :: rest =>
    (low ≤ piece.offset ∧ piece.bytes ≠ [] ∧ piece.offset + piece.bytes.length ≤ high ∧
      piece.bytes = segment S piece.offset (piece.offset + piece.bytes.length)) ∧
      Held S high (piece.offset + piece.bytes.length) rest

namespace Held
variable {S : Nat → UInt8} {low low' high high' : Nat} {pieces : List EarlyPiece}

theorem mono (held : Held S high low pieces) (lower : low' ≤ low) (higher : high ≤ high') :
    Held S high' low' pieces := by
  induction pieces generalizing low low' with
  | nil => trivial
  | cons piece rest ih =>
    obtain ⟨⟨above, nonempty, below, bytes⟩, later⟩ := held
    exact ⟨⟨lower.trans above, nonempty, below.trans higher, bytes⟩, ih later le_rfl⟩

theorem above (held : Held S high low pieces) : ∀ piece ∈ pieces, low ≤ piece.offset := by
  induction pieces generalizing low with
  | nil => simp
  | cons first rest ih =>
    obtain ⟨⟨above, -, -, -⟩, later⟩ := held
    intro piece member
    rcases mem_cons.mp member with same | member
    · rw [same]
      exact above
    · have after := ih later piece member
      omega

theorem nonempty (held : Held S high low pieces) : ∀ piece ∈ pieces, piece.bytes ≠ [] := by
  induction pieces generalizing low with
  | nil => simp
  | cons first rest ih =>
    intro piece member
    rcases mem_cons.mp member with same | member
    · rw [same]
      exact held.1.2.1
    · exact ih held.2 piece member

theorem content (held : Held S high low pieces) : ∀ piece ∈ pieces,
    piece.bytes = segment S piece.offset (piece.offset + piece.bytes.length) := by
  induction pieces generalizing low with
  | nil => simp
  | cons first rest ih =>
    intro piece member
    rcases mem_cons.mp member with same | member
    · rw [same]
      exact held.1.2.2.2
    · exact ih held.2 piece member

theorem disjoint (held : Held S high low pieces) : pieces.Pairwise fun a b => a.offset + a.bytes.length ≤ b.offset := by
  induction pieces generalizing low with
  | nil => exact List.Pairwise.nil
  | cons first rest ih => exact pairwise_cons.mpr ⟨held.2.above, ih held.2⟩

theorem total (held : Held S high low pieces) : (pieces.map fun piece => piece.bytes.length).sum ≤ high - low := by
  induction pieces generalizing low with
  | nil => exact Nat.zero_le _
  | cons first rest ih =>
    obtain ⟨⟨above, -, below, -⟩, later⟩ := held
    have others := ih later
    simp only [map_cons, sum_cons]
    omega

end Held

theorem EarlyPiece.end_eq {piece : EarlyPiece} (word : piece.offset + piece.bytes.length < 2 ^ 64) :
    piece.end = piece.offset + piece.bytes.length := Nat.mod_eq_of_lt word

variable {S : Nat → UInt8} {p : Bytes}

theorem part_of_fragment {offset low high : Nat}
    (bytes : p = segment S offset (offset + p.length)) (lower : offset ≤ low) (order : low ≤ high)
    (upper : high ≤ offset + p.length) :
    (p.drop (low - offset)).take (high - low) = segment S low high := by
  have start : offset + (low - offset) = low := by omega
  have stop : low + (high - low) = high := by omega
  rw [bytes, drop_segment, start, take_segment S (by omega), stop]

namespace QUICReceiveStream
variable {S : Nat → UInt8} {bound lo : Nat}

theorem held_piece {offset low high : Nat} {rest : List EarlyPiece}
    (bytes : p = segment S offset (offset + p.length)) (fits : offset + p.length ≤ bound)
    (lower : offset ≤ low) (above : lo ≤ low) (order : low < high)
    (upper : high ≤ offset + p.length) (later : Held S bound high rest) :
    Held S bound lo (⟨low, (p.drop (low - offset)).take (high - low)⟩ :: rest) := by
  have content := part_of_fragment bytes lower order.le upper
  have length : (segment S low high).length = high - low := length_segment S low high
  have stop : low + (high - low) = high := by omega
  rw [content]
  refine ⟨⟨above, ?_, ?_, ?_⟩, ?_⟩
  · intro empty
    have none := congrArg List.length empty
    simp only [length, length_nil] at none
    omega
  · simp only [length, stop]
    omega
  · simp only [length, stop]
  · simp only [length, stop]
    exact later

variable {offset : Nat}

/-- Filling the gaps of a fragment keeps the pieces ordered. The induction follows the pieces that
are still ahead; each of them ends after the fragment begins. -/
theorem held_fillGaps (bytes : p = segment S offset (offset + p.length))
    (fits : offset + p.length ≤ bound) (word : bound < 2 ^ 64) (pieces : List EarlyPiece) {low : Nat}
    (held : Held S bound lo pieces) (ends : ∀ piece ∈ pieces, offset ≤ piece.offset + piece.bytes.length)
    (lower : offset ≤ low) (above : lo ≤ low) :
    Held S bound lo (fillGaps offset p (offset + p.length) low pieces) := by
  induction pieces generalizing lo low with
  | nil =>
    unfold fillGaps
    split_ifs with more
    · exact held_piece bytes fits lower above more le_rfl trivial
    · trivial
  | cons piece rest ih =>
    obtain ⟨first, later⟩ := held
    have below := first.2.2.1
    have wraps : piece.end = piece.offset + piece.bytes.length := EarlyPiece.end_eq (by omega)
    have filled := ih later (fun other member => ends other (mem_cons_of_mem _ member))
      (ends piece mem_cons_self) le_rfl
    unfold fillGaps
    rw [wraps]
    split_ifs with more before gap
    · have same : Held S bound (offset + p.length) (piece :: rest) := ⟨⟨before, first.2⟩, later⟩
      exact held_piece bytes fits lower above more le_rfl same
    · have same : Held S bound piece.offset (piece :: fillGaps offset p (offset + p.length)
          (piece.offset + piece.bytes.length) rest) := ⟨⟨le_rfl, first.2⟩, filled⟩
      exact held_piece bytes fits lower above gap (by omega) same
    · exact ⟨first, filled⟩
    · exact ⟨first, later⟩

theorem held_insert (bytes : p = segment S offset (offset + p.length)) (fits : offset + p.length ≤ bound)
    (word : bound < 2 ^ 64) (pieces : List EarlyPiece) (held : Held S bound lo pieces)
    (above : lo ≤ offset) :
    Held S bound lo (pieces.takeWhile (fun piece => piece.end ≤ offset) ++ fillGaps offset p (offset + p.length) offset
        (pieces.dropWhile fun piece => piece.end ≤ offset)) := by
  induction pieces generalizing lo with
  | nil => exact held_fillGaps bytes fits word [] trivial (by simp) le_rfl above
  | cons piece rest ih =>
    have wraps : piece.end = piece.offset + piece.bytes.length := EarlyPiece.end_eq (lt_of_le_of_lt held.1.2.2.1 word)
    by_cases passed : piece.end ≤ offset
    · simp only [takeWhile_cons, dropWhile_cons, passed, decide_true, if_true, cons_append]
      exact ⟨held.1, ih held.2 (wraps ▸ passed)⟩
    simp only [takeWhile_cons, dropWhile_cons, passed, decide_false, Bool.false_eq_true, if_false, nil_append]
    apply held_fillGaps bytes fits word (piece :: rest) held _ le_rfl above
    intro other member
    rcases mem_cons.mp member with same | member
    · rw [same]
      omega
    · have after := held.2.above other member
      omega

theorem drain_held (pieces : List EarlyPiece) {received : Nat} {ready : Bytes}
    (read : Bytes) (held : Held S bound lo pieces) (word : bound < 2 ^ 64)
    (reached : received ≤ bound) (order : read ++ ready = segment S 0 received) :
    let result := drain pieces received ready
    Held S bound (result.2.1 + 1) result.1 ∧ result.2.1 ≤ bound ∧ read ++ result.2.2 = segment S 0 result.2.1 := by
  induction pieces generalizing lo received ready with
  | nil => exact ⟨trivial, reached, order⟩
  | cons first rest ih =>
    obtain ⟨⟨-, nonempty, below, content⟩, later⟩ := held
    have wraps : first.end = first.offset + first.bytes.length := EarlyPiece.end_eq (by omega)
    unfold drain
    rw [wraps]
    split_ifs with early more
    · exact ⟨⟨⟨early, nonempty, below, content⟩, later⟩, reached, order⟩
    · apply ih later below
      have start : first.offset + (received - first.offset) = received := by omega
      rw [← append_assoc, order, content, drop_segment, start]
      simp only [length_segment, Nat.add_sub_cancel_left]
      exact segment_append S (Nat.zero_le _) more.le
    · exact ih later reached order

/-- What reassembly has made of `S`, when `read` has been taken from its front. -/
structure Reassembles (S : Nat → UInt8) (s : QUICReceiveStream) (read : Bytes) : Prop where
  ready : read ++ s.ready = segment S 0 s.received
  early : Held S s.highWater (s.received + 1) s.early
  received : s.received ≤ s.highWater
  highWater : s.highWater ≤ s.limit
  word : s.highWater < 2 ^ 64

def Complete (s : QUICReceiveStream) : Prop := ∃ final, s.finalSize = some final ∧ final ≤ s.received

variable {s : QUICReceiveStream} {read p : Bytes}

theorem Reassembles.insertEarly (now : Reassembles S s read) (bytes : p = segment S offset (offset + p.length))
    (fits : offset + p.length ≤ s.highWater) (ahead : s.received < offset) :
    Reassembles S (s.insertEarly offset p) read := by
  have word : addWrapping offset p.length = offset + p.length := Nat.mod_eq_of_lt (lt_of_le_of_lt fits now.word)
  refine ⟨now.ready, ?_, now.received, now.highWater, now.word⟩
  unfold QUICReceiveStream.insertEarly
  simp only [word]
  exact held_insert bytes fits now.word s.early now.early ahead

theorem Reassembles.drainEarly {read : Bytes} (ready : read ++ s.ready = segment S 0 s.received)
    (early : Held S s.highWater lo s.early) (received : s.received ≤ s.highWater) (highWater : s.highWater ≤ s.limit)
    (word : s.highWater < 2 ^ 64) : Reassembles S s.drainEarly read := by
  obtain ⟨held, within, order⟩ := drain_held s.early read early word received ready
  exact ⟨order, held, within, highWater, word⟩

theorem Reassembles.store (now : Reassembles S s read) (bytes : p = segment S offset (offset + p.length))
    (fits : offset + p.length ≤ s.highWater) :
    Reassembles S (s.store offset p (offset + p.length)) read := by
  unfold QUICReceiveStream.store
  split_ifs with old reaches
  · exact now
  · have start : offset + (s.received - offset) = s.received := by omega
    have order : read ++ (s.ready ++ p.drop (s.received - offset)) = segment S 0 (offset + p.length) := by
      rw [← append_assoc, now.ready, bytes, drop_segment, start]
      simp only [length_segment, Nat.add_sub_cancel_left]
      exact segment_append S (Nat.zero_le _) (by omega)
    exact Reassembles.drainEarly order now.early fits now.highWater now.word
  · exact now.insertEarly bytes fits (by omega)

theorem Reassembles.checkFinished {read : Bytes} (now : Reassembles S s read) : Reassembles S s.checkFinished read := by
  unfold QUICReceiveStream.checkFinished
  split
  · split_ifs
    · exact ⟨now.ready, now.early, now.received, now.highWater, now.word⟩
    · exact now
  · exact now

theorem acceptEnd_sized {s s' : QUICReceiveStream} {«end» : Nat} {fin : Bool} (done : s.acceptEnd «end» fin = .ok s') :
    s' = s ∨ (s.finalSize = none ∧ s.highWater ≤ «end» ∧ s' = { s with finalSize := some «end» }) := by
  unfold acceptEnd at done
  split at done
  next final known =>
    split_ifs at done
    exact .inl (Except.ok.inj done).symm
  next unknown =>
    split_ifs at done with fin' short
    · exact .inr ⟨unknown, not_lt.mp short, (Except.ok.inj done).symm⟩
    · exact .inl (Except.ok.inj done).symm

theorem accept_cases (s : QUICReceiveStream) (offset : Nat) (p : Bytes) (fin : Bool) : (s.accept offset p fin).2 = s ∨
    ∃ s1, s.acceptEnd (addWrapping offset p.length) fin = .ok s1 ∧
      offset ≤ addWrapping offset p.length ∧ addWrapping offset p.length ≤ s.limit ∧
      (s.accept offset p fin).2 = (({ s1 with
        highWater := max s1.highWater (addWrapping offset p.length) } : QUICReceiveStream).store
            offset p (addWrapping offset p.length)).checkFinished := by
  unfold accept
  extract_lets «end»
  split_ifs with wrapped within
  · exact .inl rfl
  · exact .inl rfl
  split
  · exact .inl rfl
  next s1 checked => exact .inr ⟨s1, checked, not_lt.mp wrapped, not_lt.mp within, rfl⟩

theorem addWrapping_eq {offset n : Nat} (sized : n < 2 ^ 64) (order : offset ≤ addWrapping offset n) :
    addWrapping offset n = offset + n := by
  unfold addWrapping at order ⊢
  omega

theorem Reassembles.accept (now : Reassembles S s read) (fin : Bool) (sized : p.length < 2 ^ 64)
    (bytes : p = segment S offset (offset + p.length)) :
    Reassembles S (s.accept offset p fin).2 read := by
  rcases accept_cases s offset p fin with same | ⟨s1, checked, order, within, stored⟩
  · rw [same]
    exact now
  have word : addWrapping offset p.length < 2 ^ 64 := Nat.mod_lt _ (by decide)
  have «end» := addWrapping_eq sized order
  rw [«end»] at stored within word
  have raised : Reassembles S { s1 with highWater := max s1.highWater (offset + p.length) } read := by
    rcases acceptEnd_sized checked with rfl | ⟨-, -, rfl⟩
    all_goals exact ⟨now.ready, now.early.mono le_rfl (le_max_left _ _),
      now.received.trans (le_max_left _ _), max_le now.highWater within, max_lt now.word word⟩
  rw [stored]
  exact (raised.store bytes (le_max_right _ _)).checkFinished

theorem le_drain (pieces : List EarlyPiece) (received : Nat) (ready : Bytes) :
    received ≤ (drain pieces received ready).2.1 := by
  induction pieces generalizing received ready with
  | nil => exact le_rfl
  | cons first rest ih =>
    unfold drain
    split_ifs with early more
    · exact le_rfl
    · exact more.le.trans (ih _ _)
    · exact ih _ _

theorem store_ends (s : QUICReceiveStream) (offset : Nat) (p : Bytes) («end» : Nat) :
    s.received ≤ (s.store offset p «end»).received ∧ (s.store offset p «end»).finalSize = s.finalSize ∧
      (s.store offset p «end»).finished = s.finished := by
  unfold store
  split_ifs with old reaches
  · exact ⟨le_rfl, rfl, rfl⟩
  · have ahead := le_drain s.early «end» (s.ready ++ p.drop (s.received - offset))
    exact ⟨(not_le.mp old).le.trans ahead, rfl, rfl⟩
  · exact ⟨le_rfl, rfl, rfl⟩

theorem checkFinished_iff (sound : s.finished = true → s.Complete) :
    s.checkFinished.finished = true ↔ s.checkFinished.Complete := by
  unfold checkFinished
  split
  next final known =>
    split_ifs with reached
    · exact iff_of_true rfl ⟨final, known, reached⟩
    refine ⟨sound, fun complete => ?_⟩
    obtain ⟨size, same, within⟩ := complete
    rw [known, Option.some.injEq] at same
    omega
  next unknown =>
    refine ⟨sound, fun complete => ?_⟩
    obtain ⟨size, same, -⟩ := complete
    cases unknown.symm.trans same

theorem accept_finished (now : s.finished = true ↔ s.Complete) (offset : Nat) (p : Bytes) (fin : Bool) :
    (s.accept offset p fin).2.finished = true ↔ (s.accept offset p fin).2.Complete := by
  rcases accept_cases s offset p fin with same | ⟨s1, checked, -, -, stored⟩
  · rw [same]
    exact now
  rw [stored]
  apply checkFinished_iff
  intro finished
  obtain ⟨ahead, size, kept⟩ := store_ends
    { s1 with highWater := max s1.highWater (addWrapping offset p.length) } offset p
    (addWrapping offset p.length)
  rw [kept] at finished
  rcases acceptEnd_sized checked with rfl | ⟨unknown, -, rfl⟩
  · obtain ⟨final, known, within⟩ := now.mp finished
    exact ⟨final, size.trans known, within.trans ahead⟩
  obtain ⟨final, known, -⟩ := now.mp finished
  cases unknown.symm.trans known

end QUICReceiveStream

/-- The arguments of one call of `accept`; the length is a signed word. -/
structure Fragment where
  offset : Nat
  bytes : Bytes
  fin : Bool
  sized : bytes.length < 2 ^ 63

/-- What happens to a receiving stream: a fragment arrives, bytes in order are read, or the limit is
raised. -/
inductive ReceiveCall where
  | accept (fragment : Fragment)
  | consume (n : Nat)
  | extend (limit : Nat)

/-- The bytes of a fragment are the ones that `S` has at its offset. -/
def ReceiveCall.TakenFrom (S : Nat → UInt8) : ReceiveCall → Prop
  | .accept fragment => fragment.bytes =
      segment S fragment.offset (fragment.offset + fragment.bytes.length)
  | _ => True

/-- A receiving stream and what has been read from it. -/
structure Reception where
  stream : QUICReceiveStream
  read : Bytes := []

namespace Reception

def step (r : Reception) : ReceiveCall → Reception
  | .accept fragment =>
    { r with stream := (r.stream.accept fragment.offset fragment.bytes fragment.fin).2 }
  | .consume n => {
      stream := { r.stream with ready := r.stream.ready.drop n }
      read := r.read ++ r.stream.ready.take n }
  | .extend limit => { r with stream := { r.stream with limit := max r.stream.limit limit } }

def run (r : Reception) (calls : List ReceiveCall) : Reception := calls.foldl step r

/-- Reassembly is correct and the end of the stream is noticed. -/
structure Correct (S : Nat → UInt8) (r : Reception) : Prop where
  reassembles : r.stream.Reassembles S r.read
  finished : r.stream.finished = true ↔ r.stream.Complete

theorem Correct.step {r : Reception} (now : Correct S r) (call : ReceiveCall)
    (taken : call.TakenFrom S) : Correct S (r.step call) := by
  obtain ⟨⟨ready, early, received, highWater, word⟩, finished⟩ := now
  cases call with
  | accept fragment =>
    have sized : fragment.bytes.length < 2 ^ 64 := fragment.sized.trans (by decide)
    exact ⟨QUICReceiveStream.Reassembles.accept ⟨ready, early, received, highWater, word⟩
      fragment.fin sized taken, QUICReceiveStream.accept_finished finished _ _ _⟩
  | consume n =>
    have order : (r.read ++ r.stream.ready.take n) ++ r.stream.ready.drop n = segment S 0 r.stream.received := by
      rw [append_assoc, take_append_drop]
      exact ready
    exact ⟨⟨order, early, received, highWater, word⟩, finished⟩
  | extend limit => exact ⟨⟨ready, early, received, highWater.trans (le_max_left _ _), word⟩, finished⟩

theorem Correct.run (calls : List ReceiveCall)
    (taken : ∀ call ∈ calls, call.TakenFrom S) {r : Reception} (now : Correct S r) :
    Correct S (r.run calls) := by
  induction calls generalizing r with
  | nil => exact now
  | cons call rest ih =>
    exact ih (fun later member => taken later (mem_cons_of_mem _ member)) (now.step call (taken call mem_cons_self))

theorem correct_new (S : Nat → UInt8) (limit announced : Nat) :
    Correct S { stream := { limit := limit, announced := announced } } where
  reassembles := ⟨rfl, trivial, le_rfl, Nat.zero_le _, Nat.two_pow_pos 64⟩
  finished := by
    constructor
    · intro finished
      cases finished
    · intro complete
      obtain ⟨final, known, -⟩ := complete
      cases known

/-- Whatever fragments of one sequence arrive, in whatever order, the bytes that were ever put in
order are its prefix up to `received`; the early pieces are ascending, disjoint, not empty, above
`received` and the bytes of the sequence there; they fit what is left of the window; and the stream
is finished when its final size is known and has been reached. -/
theorem reassembles_sequence (S : Nat → UInt8) (limit announced : Nat) (calls : List ReceiveCall)
    (taken : ∀ call ∈ calls, call.TakenFrom S) :
    let r := run { stream := { limit := limit, announced := announced } } calls
    r.read ++ r.stream.ready = segment S 0 r.stream.received ∧
      r.stream.early.Pairwise (fun a b => a.offset + a.bytes.length ≤ b.offset) ∧
      (∀ piece ∈ r.stream.early, r.stream.received < piece.offset ∧ piece.bytes ≠ [] ∧
        piece.bytes = segment S piece.offset (piece.offset + piece.bytes.length)) ∧
      (r.stream.early.map fun piece => piece.bytes.length).sum ≤ r.stream.limit - r.stream.received ∧
      (r.stream.finished = true ↔ ∃ final, r.stream.finalSize = some final ∧ final ≤ r.stream.received) := by
  intro r
  have correct : Correct S r := Correct.run calls taken (correct_new S limit announced)
  obtain ⟨now, finished⟩ := correct
  refine ⟨now.ready, now.early.disjoint, fun piece member => ?_, ?_, finished⟩
  · exact ⟨now.early.above piece member, now.early.nonempty piece member, now.early.content piece member⟩
  · have held := now.early.total
    have within := now.highWater
    omega

/-- Three fragments of the sequence 0, 1, 2, …, the first of them early and overlapping the last. -/
theorem reassembles_sequence_three :
    let calls : List ReceiveCall := [.accept ⟨2, [2, 3], false, by decide⟩,
      .accept ⟨5, [5], true, by decide⟩, .accept ⟨0, [0, 1, 2], false, by decide⟩]
    let r := run { stream := { limit := 8, announced := 8 } } calls
    r.stream.ready = [0, 1, 2, 3] ∧ r.stream.early.length = 1 ∧
      (r.read ++ r.stream.ready = segment (fun i => UInt8.ofNat i) 0 r.stream.received) := by
  intro calls r
  have taken : ∀ call ∈ calls, call.TakenFrom fun i => UInt8.ofNat i := by
    simp only [calls, List.forall_mem_cons]
    exact ⟨rfl, rfl, rfl, by simp⟩
  exact ⟨by decide, by decide, (reassembles_sequence _ 8 8 calls taken).1⟩

end Reception
end AvianCore.Quic
