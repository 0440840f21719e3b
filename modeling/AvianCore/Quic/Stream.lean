import AvianCore.Quic.Frame

/-!
Streams: byte ranges, reassembly on the receiving side, retransmission on the
sending side.
-/

namespace AvianCore.Quic
open List

/-- A half-open range of stream offsets. -/
structure ByteRange where
  low : Nat
  high : Nat
  deriving DecidableEq, Repr

/-- An ascending set of byte ranges. -/
structure QUICByteRanges where
  ranges : List ByteRange := []
  deriving DecidableEq, Repr

namespace QUICByteRanges

def isEmpty (set : QUICByteRanges) : Bool := set.ranges.isEmpty

/-- The binary search between `lo` and `hi`; the fuel is their distance. -/
def search (ranges : List ByteRange) (offset : Nat) (touching : Bool) : Nat → Nat → Nat → Nat
  | 0, lo, _ => lo
  | fuel + 1, lo, hi =>
    if lo < hi then
      let mid := (lo + hi) / 2
      let «end» := (ranges.getD mid ⟨0, 0⟩).high
      if «end» < offset ∨ (!touching ∧ «end» = offset) then
        search ranges offset touching fuel (mid + 1) hi
      else search ranges offset touching fuel lo mid
    else lo

/-- The first range ending after `offset`, or at it when `touching`. -/
def firstIndex (set : QUICByteRanges) (offset : Nat) (touching : Bool := false) : Nat :=
  search set.ranges offset touching set.ranges.length 0 set.ranges.length

/-- Extends `high` over the ranges it reaches, and returns the ones it does not. -/
def swallow (high : Nat) : List ByteRange → Nat × List ByteRange
  | [] => (high, [])
  | r :: rest => if r.low ≤ high then swallow (max high r.high) rest else (high, r :: rest)

def add (set : QUICByteRanges) (low high : Nat) : QUICByteRanges :=
  if high ≤ low then set
  else
    let i := set.firstIndex low true
    let before := set.ranges.take i
    match set.ranges.drop i with
    | [] => ⟨before ++ [⟨low, high⟩]⟩
    | r :: rest =>
      if high < r.low then ⟨before ++ ⟨low, high⟩ :: r :: rest⟩
      else
        let (high, rest) := swallow (max r.high high) rest
        ⟨before ++ ⟨min r.low low, high⟩ :: rest⟩

/-- How far a contiguous run from `base` extends. -/
def contiguousEnd (set : QUICByteRanges) (base : Nat) : Nat :=
  match set.ranges with
  | [] => base
  | first :: _ => if first.low ≤ base then max base first.high else base

/-- The walk of `subtract`, from the first range that ends after `low`. -/
def cut (low high : Nat) : List ByteRange → List ByteRange
  | [] => []
  | r :: rest =>
    if high ≤ r.low then r :: rest
    else if r.low < low ∧ high < r.high then ⟨r.low, low⟩ :: ⟨high, r.high⟩ :: rest
    else if r.low < low then ⟨r.low, low⟩ :: cut low high rest
    else if high < r.high then ⟨high, r.high⟩ :: rest
    else cut low high rest

/-- Removes exactly the offsets from `low` up to `high`. -/
def subtract (set : QUICByteRanges) (low high : Nat) : QUICByteRanges :=
  if high ≤ low then set
  else
    let i := set.firstIndex low
    ⟨set.ranges.take i ++ cut low high (set.ranges.drop i)⟩

/-- Every range ends at or before `bound`. -/
def Below (set : QUICByteRanges) (bound : Nat) : Prop := ∀ range ∈ set.ranges, range.high ≤ bound

variable {set : QUICByteRanges}

theorem Below.mono {bound bound' : Nat} (below : set.Below bound) (more : bound ≤ bound') : set.Below bound' :=
  fun range member => (below range member).trans more

theorem swallow_below (high : Nat) (ranges : List ByteRange) {bound : Nat} (fits : high ≤ bound)
    (below : ∀ range ∈ ranges, range.high ≤ bound) :
    (swallow high ranges).1 ≤ bound ∧ (swallow high ranges).2 ⊆ ranges := by
  induction ranges generalizing high with
  | nil => exact ⟨fits, List.Subset.refl _⟩
  | cons r rest ih =>
    unfold swallow
    split_ifs
    · obtain ⟨most, within⟩ := ih (max high r.high) (max_le fits (below r mem_cons_self))
        fun range member => below range (mem_cons_of_mem _ member)
      exact ⟨most, List.Subset.trans within (subset_cons_self _ _)⟩
    · exact ⟨fits, List.Subset.refl _⟩

variable {low high bound : Nat}

theorem Below.add (below : set.Below bound) (fits : high ≤ bound) : (set.add low high).Below bound := by
  unfold QUICByteRanges.add
  split
  · exact below
  extract_lets i before
  have earlier : ∀ range ∈ before, range.high ≤ bound := fun range member => below range (take_subset _ _ member)
  have later : ∀ range ∈ set.ranges.drop i, range.high ≤ bound :=
    fun range member => below range (List.drop_subset _ _ member)
  split
  · intro range member
    rcases mem_append.mp member with old | new
    · exact earlier range old
    · rw [mem_singleton.mp new]
      exact fits
  next r rest found =>
    rw [found] at later
    split
    · intro range member
      rcases mem_append.mp member with old | new
      · exact earlier range old
      rcases mem_cons.mp new with same | rest
      · rw [same]
        exact fits
      · exact later range rest
    · have reached := swallow_below (max r.high high) rest (max_le (later r mem_cons_self) fits)
        fun range member => later range (mem_cons_of_mem _ member)
      generalize swallow (max r.high high) rest = merged at reached
      obtain ⟨«end», left⟩ := merged
      intro range member
      rcases mem_append.mp member with old | new
      · exact earlier range old
      rcases mem_cons.mp new with same | unreached
      · rw [same]
        exact reached.1
      · exact later range (mem_cons_of_mem _ (reached.2 unreached))

theorem cut_below (fits : low ≤ bound) (ranges : List ByteRange) (below : ∀ range ∈ ranges, range.high ≤ bound) :
    ∀ range ∈ cut low high ranges, range.high ≤ bound := by
  induction ranges with
  | nil => exact below
  | cons r rest ih =>
    have first := below r mem_cons_self
    have others := fun range member => below range (mem_cons_of_mem r member)
    unfold cut
    split_ifs
    · exact below
    · rintro range (_ | ⟨_, _ | ⟨_, member⟩⟩)
      · exact fits
      · exact first
      · exact others range member
    · rintro range (_ | ⟨_, member⟩)
      · exact fits
      · exact ih others range member
    · rintro range (_ | ⟨_, member⟩)
      · exact first
      · exact others range member
    · exact ih others

theorem Below.subtract (below : set.Below bound) (fits : high ≤ bound) : (set.subtract low high).Below bound := by
  unfold QUICByteRanges.subtract
  split
  · exact below
  next order =>
    extract_lets i
    intro range member
    rcases mem_append.mp member with old | cut
    · exact below range (take_subset _ _ old)
    · refine cut_below (by omega) (set.ranges.drop i) (fun range member => ?_) range cut
      exact below range (List.drop_subset _ _ member)

theorem subtract_isEmpty (empty : set.isEmpty = true) (low high : Nat) : (set.subtract low high).isEmpty = true := by
  have none : set.ranges = [] := List.isEmpty_iff.mp empty
  unfold subtract
  split_ifs
  · exact empty
  · simp [isEmpty, none, cut]

theorem contiguousEnd_le {base bound : Nat} (below : set.Below bound) : set.contiguousEnd base ≤ max base bound := by
  unfold contiguousEnd
  split
  · exact le_max_left _ _
  next first rest found =>
    have most : first.high ≤ bound := below first (by rw [found]; exact mem_cons_self)
    split_ifs
    · exact max_le_max le_rfl most
    · exact le_max_left _ _

end QUICByteRanges

/-- A piece that arrived early. -/
structure EarlyPiece where
  offset : Nat
  bytes : Bytes
  deriving DecidableEq, Repr

def EarlyPiece.end (piece : EarlyPiece) : Nat := addWrapping piece.offset piece.bytes.length

structure QUICReceiveStream where
  ready : Bytes := []
  received : Nat := 0
  early : List EarlyPiece := []
  highWater : Nat := 0
  limit : Nat := 0
  announced : Nat := 0
  finalSize : Option Nat := none
  finished : Bool := false
  delivered : Bool := false
  deriving DecidableEq, Repr

namespace QUICReceiveStream

inductive Outcome where
  | ok | flowControlError | finalSizeError
  deriving DecidableEq, Repr

/-- Fills the gaps between `low` and `high` with the parts of the fragment not yet held. The
list is what remains of `early` from the current index on. -/
def fillGaps (offset : Nat) (p : Bytes) (high : Nat) : Nat → List EarlyPiece → List EarlyPiece
  | low, [] =>
    if low < high then [⟨low, (p.drop (low - offset)).take (high - low)⟩] else []
  | low, held :: rest =>
    if low < high then
      if high ≤ held.offset then
        ⟨low, (p.drop (low - offset)).take (high - low)⟩ :: held :: rest
      else if low < held.offset then
        ⟨low, (p.drop (low - offset)).take (held.offset - low)⟩ :: held
          :: fillGaps offset p high held.end rest
      else held :: fillGaps offset p high held.end rest
    else held :: rest

def insertEarly (s : QUICReceiveStream) (offset : Nat) (p : Bytes) : QUICReceiveStream :=
  let high := addWrapping offset p.length
  let passed := s.early.takeWhile fun piece => piece.end ≤ offset
  let later := s.early.dropWhile fun piece => piece.end ≤ offset
  { s with early := passed ++ fillGaps offset p high offset later }

/-- Moves the early pieces that the read cursor has reached into `ready`. -/
def drain : List EarlyPiece → Nat → Bytes → List EarlyPiece × Nat × Bytes
  | [], received, ready => ([], received, ready)
  | first :: rest, received, ready =>
    if received < first.offset then (first :: rest, received, ready)
    else if received < first.end then
      drain rest first.end (ready ++ first.bytes.drop (received - first.offset))
    else drain rest received ready

def drainEarly (s : QUICReceiveStream) : QUICReceiveStream :=
  let (early, received, ready) := drain s.early s.received s.ready
  { s with early := early, received := received, ready := ready }

def checkFinished (s : QUICReceiveStream) : QUICReceiveStream :=
  match s.finalSize with
  | some final => if final ≤ s.received then { s with finished := true } else s
  | none => s

/-- The checks on the end of a fragment, which also fix the final size. -/
def acceptEnd (s : QUICReceiveStream) («end» : Nat) (fin : Bool) : Except Outcome QUICReceiveStream :=
  match s.finalSize with
  | some final =>
    if final < «end» then .error .finalSizeError
    else if fin ∧ «end» ≠ final then .error .finalSizeError
    else .ok s
  | none =>
    if fin then
      if «end» < s.highWater then .error .finalSizeError
      else .ok { s with finalSize := some «end» }
    else .ok s

/-- Puts the bytes where they belong, once the fragment is known to be acceptable. -/
def store (s : QUICReceiveStream) (offset : Nat) (p : Bytes) («end» : Nat) : QUICReceiveStream :=
  if «end» ≤ s.received then s
  else if offset ≤ s.received then
    drainEarly { s with ready := s.ready ++ p.drop (s.received - offset), received := «end» }
  else s.insertEarly offset p

def accept (s : QUICReceiveStream) (offset : Nat) (p : Bytes) (fin : Bool) : Outcome × QUICReceiveStream :=
  let «end» := addWrapping offset p.length
  if «end» < offset then (.finalSizeError, s)
  else if s.limit < «end» then (.flowControlError, s)
  else
    match s.acceptEnd «end» fin with
    | .error outcome => (outcome, s)
    | .ok s =>
      let s := { s with highWater := max s.highWater «end» }
      (.ok, (s.store offset p «end»).checkFinished)

theorem store_limits (s : QUICReceiveStream) (offset : Nat) (p : Bytes) («end» : Nat) :
    (s.store offset p «end»).highWater = s.highWater ∧ (s.store offset p «end»).limit = s.limit ∧
      (s.store offset p «end»).announced = s.announced := by
  unfold store
  split_ifs <;> exact ⟨rfl, rfl, rfl⟩

theorem checkFinished_limits (s : QUICReceiveStream) :
    s.checkFinished.highWater = s.highWater ∧ s.checkFinished.limit = s.limit ∧
      s.checkFinished.announced = s.announced := by
  unfold checkFinished
  split
  · split_ifs <;> exact ⟨rfl, rfl, rfl⟩
  · exact ⟨rfl, rfl, rfl⟩

theorem acceptEnd_limits {s s' : QUICReceiveStream} {«end» : Nat} {fin : Bool} (done : s.acceptEnd «end» fin = .ok s') :
    s'.highWater = s.highWater ∧ s'.limit = s.limit ∧ s'.announced = s.announced := by
  unfold acceptEnd at done
  split at done
  all_goals split_ifs at done
  all_goals simp only [Except.ok.injEq] at done
  all_goals subst done
  all_goals exact ⟨rfl, rfl, rfl⟩

theorem accept_ok {s s' : QUICReceiveStream} {offset : Nat} {p : Bytes} {fin : Bool}
    (done : s.accept offset p fin = (.ok, s')) :
    addWrapping offset p.length ≤ s.limit ∧
      s'.highWater = max s.highWater (addWrapping offset p.length) ∧ s'.limit = s.limit ∧
      s'.announced = s.announced := by
  unfold accept at done
  extract_lets «end» at done
  split_ifs at done with wrapped within <;> simp at done
  split at done
  next failed =>
    simp only [Prod.mk.injEq] at done
    obtain ⟨rfl, -⟩ := done
    unfold acceptEnd at failed
    split at failed
    all_goals split_ifs at failed
    all_goals simp at failed
  next s1 checked =>
    simp only [Prod.mk.injEq, true_and] at done
    subst done
    obtain ⟨highWater, limit, announced⟩ := acceptEnd_limits checked
    obtain ⟨a1, a2, a3⟩ := checkFinished_limits (store { s1 with highWater := max s1.highWater «end» } offset p «end»)
    obtain ⟨b1, b2, b3⟩ := store_limits { s1 with highWater := max s1.highWater «end» } offset p «end»
    refine ⟨not_lt.mp within, ?_, ?_, ?_⟩
    · rw [a1, b1, highWater]
    · rw [a2, b2, limit]
    · rw [a3, b3, announced]

end QUICReceiveStream

structure QUICSendStream where
  data : Bytes := []
  base : Nat := 0
  sent : Nat := 0
  acked : QUICByteRanges := {}
  lost : QUICByteRanges := {}
  limit : Nat := 0
  finQueued : Bool := false
  finSent : Bool := false
  finAcked : Bool := false
  resetCode : Option Nat := none
  resetSent : Bool := false
  deriving DecidableEq, Repr

namespace QUICSendStream

/-- The sizes are in memory, so that the sum of `&+` does not wrap. -/
def written (s : QUICSendStream) : Nat := s.base + s.data.length

def pending (s : QUICSendStream) : Nat := s.written - s.sent

def window (s : QUICSendStream) : Nat := s.limit - s.sent

def isDrained (s : QUICSendStream) : Bool := s.written == s.base && s.lost.isEmpty && (!s.finQueued || s.finAcked)

def write (s : QUICSendStream) (p : Bytes) : QUICSendStream := { s with data := s.data ++ p }

def slice (s : QUICSendStream) (offset n : Nat) : Option Bytes :=
  if offset < s.base then none
  else
    let index := offset - s.base
    if s.data.length < index + n then none else some ((s.data.drop index).take n)

def acknowledge (s : QUICSendStream) (low high : Nat) : QUICSendStream :=
  let acked := s.acked.add low high
  let lost := s.lost.subtract low high
  let contiguous := acked.contiguousEnd s.base
  if s.base < contiguous then
    { s with
      acked := acked
      lost := lost
      data := s.data.drop (contiguous - s.base)
      base := contiguous }
  else { s with acked := acked, lost := lost }

/-- Takes out of `lost` what the acknowledged ranges say has already arrived. -/
def clearAcked (lost : QUICByteRanges) (low high : Nat) : List ByteRange → QUICByteRanges
  | [] => lost
  | range :: rest =>
    if high ≤ range.low then lost
    else clearAcked (lost.subtract (max range.low low) (min range.high high)) low high rest

def declareLost (s : QUICSendStream) (low high : Nat) : QUICSendStream :=
  let low := max low s.base
  if high ≤ low then s
  else
    { s with
      lost := clearAcked (s.lost.add low high) low high
        (s.acked.ranges.drop (s.acked.firstIndex low)) }

/-- What was acknowledged or lost was sent, and what was sent was written. -/
structure Sound (s : QUICSendStream) : Prop where
  acked : s.acked.Below s.sent
  lost : s.lost.Below s.sent
  sent : s.sent ≤ s.written

theorem clearAcked_below {lost : QUICByteRanges} {low high bound : Nat} (ranges : List ByteRange)
    (below : lost.Below bound) (fits : high ≤ bound) :
    (clearAcked lost low high ranges).Below bound := by
  induction ranges generalizing lost with
  | nil => exact below
  | cons range rest ih =>
    unfold clearAcked
    split_ifs
    · exact below
    · exact ih (below.subtract ((min_le_right _ _).trans fits))

variable {s : QUICSendStream} {low high : Nat}

theorem acknowledge_written (sound : s.Sound) (fits : high ≤ s.sent) :
    (s.acknowledge low high).written = s.written := by
  unfold acknowledge
  extract_lets acked lost contiguous
  split_ifs with more
  · have most : contiguous ≤ max s.base s.sent := QUICByteRanges.contiguousEnd_le (sound.acked.add fits)
    have queued := sound.sent
    unfold written at queued ⊢
    simp only [length_drop]
    omega
  · rfl

variable (s : QUICSendStream)

theorem acknowledge_sent (low high : Nat) : (s.acknowledge low high).sent = s.sent := by
  unfold acknowledge
  extract_lets acked lost contiguous
  split_ifs <;> rfl

theorem acknowledge_limit (low high : Nat) : (s.acknowledge low high).limit = s.limit := by
  unfold acknowledge
  extract_lets acked lost contiguous
  split_ifs <;> rfl

theorem acknowledge_acked (low high : Nat) : (s.acknowledge low high).acked = s.acked.add low high := by
  unfold acknowledge
  extract_lets acked lost contiguous
  split_ifs <;> rfl

theorem acknowledge_lost (low high : Nat) : (s.acknowledge low high).lost = s.lost.subtract low high := by
  unfold acknowledge
  extract_lets acked lost contiguous
  split_ifs <;> rfl

theorem declareLost_sent (low high : Nat) : (s.declareLost low high).sent = s.sent := by
  unfold declareLost
  extract_lets low
  split_ifs <;> rfl

theorem declareLost_limit (low high : Nat) : (s.declareLost low high).limit = s.limit := by
  unfold declareLost
  extract_lets low
  split_ifs <;> rfl

variable {s}

theorem Sound.acknowledge (sound : s.Sound) (fits : high ≤ s.sent) : (s.acknowledge low high).Sound where
  acked := by
    rw [acknowledge_sent, acknowledge_acked]
    exact sound.acked.add fits
  lost := by
    rw [acknowledge_sent, acknowledge_lost]
    exact sound.lost.subtract fits
  sent := by
    rw [acknowledge_sent, acknowledge_written sound fits]
    exact sound.sent

theorem Sound.declareLost (sound : s.Sound) (fits : high ≤ s.sent) : (s.declareLost low high).Sound := by
  unfold QUICSendStream.declareLost
  extract_lets from'
  split_ifs
  · exact sound
  · exact ⟨sound.acked, clearAcked_below _ (sound.lost.add fits) fits, sound.sent⟩

end QUICSendStream

/-- A stream as the connection sees it. Its identifier is its key in the connection's table. -/
structure QUICStream where
  receive : QUICReceiveStream := {}
  send : QUICSendStream := {}
  stopSending : Option Nat := none
  stopSendingQueued : Option Nat := none
  stopSendingSent : Bool := false
  released : Bool := false
  deriving DecidableEq, Repr

namespace QUICStream

/-- Nothing more can happen in either direction, and nobody above holds the stream. -/
def isFinished (s : QUICStream) : Bool :=
  if !s.released then false
  else
    let recvDone := s.receive.finished || s.receive.finalSize.isSome && s.receive.delivered
      || s.stopSendingSent
    let sendDone := if s.send.resetCode.isSome then s.send.resetSent else s.send.isDrained
    recvDone && sendDone

end QUICStream
end AvianCore.Quic
