import AvianCore.Quic.ByteRanges
import AvianCore.Quic.Run

/-!
Retransmission. A send stream is written to, sent from, acknowledged and declared lost in any
order; the bytes it still owes are always in its buffer, and a byte leaves the buffer only when
it has been acknowledged.
-/

namespace AvianCore.Quic
open List
open QUICByteRanges (passes)

namespace QUICSendStream

variable (low high : Nat)

theorem clearAcked_spec {ranges : List ByteRange} {lo : Nat} (spread : Spread lo ranges) {lost : QUICByteRanges}
    (apart : Spread 0 lost.ranges) :
    Spread 0 (clearAcked lost low high ranges).ranges ∧ ∀ x, (clearAcked lost low high ranges).Contains x ↔
        lost.Contains x ∧ ¬(Covers ranges x ∧ low ≤ x ∧ x < high) := by
  induction ranges generalizing lo lost with
  | nil => exact ⟨apart, fun x => by simp [clearAcked]⟩
  | cons range rest ih =>
    unfold clearAcked
    by_cases past : high ≤ range.low
    · rw [if_pos past]
      refine ⟨apart, fun x => ?_⟩
      constructor
      · intro owed
        refine ⟨owed, fun acked => ?_⟩
        have order := spread.1.2
        rcases (covers_cons _ _ _).mp acked.1 with here | later
        · omega
        · have far := spread.2.covers_above later
          omega
      · exact And.left
    · rw [if_neg past]
      obtain ⟨kept, same⟩ := ih spread.2
        (QUICByteRanges.subtract_spread apart (max range.low low) (min range.high high))
      refine ⟨kept, fun x => ?_⟩
      rw [same x, QUICByteRanges.contains_subtract apart, covers_cons, and_assoc]
      apply and_congr_right
      intro _
      constructor
      · intro clear acked
        rcases acked with ⟨here | later, inside⟩
        · exact clear.1 (by omega)
        · exact clear.2 ⟨later, inside⟩
      · intro clear
        exact ⟨fun here => clear ⟨.inl (by omega), by omega⟩, fun later => clear ⟨.inr later.1, later.2⟩⟩

variable (s : QUICSendStream)

theorem declareLost_base : (s.declareLost low high).base = s.base := by
  unfold declareLost
  extract_lets from'
  split_ifs <;> rfl

theorem declareLost_data : (s.declareLost low high).data = s.data := by
  unfold declareLost
  extract_lets from'
  split_ifs <;> rfl

theorem declareLost_acked : (s.declareLost low high).acked = s.acked := by
  unfold declareLost
  extract_lets from'
  split_ifs <;> rfl

theorem declareLost_lost {s : QUICSendStream} (acked : Spread 0 s.acked.ranges)
    (lost : Spread 0 s.lost.ranges) (low high : Nat) :
    Spread 0 (s.declareLost low high).lost.ranges ∧ ∀ x, (s.declareLost low high).lost.Contains x →
        s.lost.Contains x ∨ (x < high ∧ ¬s.acked.Contains x) := by
  unfold declareLost
  extract_lets from'
  split_ifs with empty
  · exact ⟨lost, fun x => Or.inl⟩
  have later := (QUICByteRanges.firstIndex_split acked from' false).2
  have cleared := clearAcked_spec from' high (acked.dropWhile (passes from' false))
    (QUICByteRanges.add_spread lost from' high)
  rw [later]
  refine ⟨cleared.1, fun x owed => ?_⟩
  obtain ⟨added, unacked⟩ := (cleared.2 x).mp owed
  rcases (QUICByteRanges.contains_add lost from' high x).mp added with old | new
  · exact .inl old
  refine .inr ⟨new.2, fun known => unacked ⟨?_, new⟩⟩
  -- an acknowledged range that covers the offset ends after it, so the search did not pass it
  have whole := takeWhile_append_dropWhile (p := passes from' false) (l := s.acked.ranges)
  have split : Covers (s.acked.ranges.takeWhile (passes from' false)) x ∨
      Covers (s.acked.ranges.dropWhile (passes from' false)) x := by
    rw [← QUICByteRanges.covers_append, whole]
    exact known
  rcases split with passed | here
  · obtain ⟨range, member, inside⟩ := passed
    have short := mem_takeWhile_imp member
    simp [passes] at short
    omega
  · exact here

theorem acknowledge_base :
    (s.acknowledge low high).base = max s.base ((s.acked.add low high).contiguousEnd s.base) := by
  unfold acknowledge
  extract_lets acked lost contiguous
  split_ifs with more
  · exact (max_eq_right more.le).symm
  · exact (max_eq_left (not_lt.mp more)).symm

theorem acknowledge_data : (s.acknowledge low high).data = s.data.drop ((s.acknowledge low high).base - s.base) := by
  rw [acknowledge_base]
  unfold acknowledge
  extract_lets acked lost contiguous
  split_ifs with more
  · rw [max_eq_right more.le]
  · rw [max_eq_left (not_lt.mp more), Nat.sub_self]
    rfl

end QUICSendStream

/-- What happens to a send stream. A frame that is sent again leaves `lost`. -/
inductive SendCall where
  | write (p : Bytes)
  | sendNew (n : Nat) (fin : Bool)
  | retransmit (low high : Nat)
  | acknowledge (low high : Nat)
  | declareLost (low high : Nat)

/-- Only what is queued is sent, and only ranges that were sent before are sent again, acknowledged
or lost. -/
def SendCall.Allowed (s : QUICSendStream) : SendCall → Prop
  | .write _ => True
  | .sendNew n _ => n ≤ s.pending
  | .retransmit _ high => high ≤ s.sent
  | .acknowledge _ high => high ≤ s.sent
  | .declareLost _ high => high ≤ s.sent

/-- What may be done next: bytes that are owed are sent again, and if none are, queued ones are sent. -/
def SendCall.Due (s : QUICSendStream) : SendCall → Prop
  | .sendNew n fin => s.lost.ranges = [] ∧ n ≤ s.pending ∧ (fin = true → s.finQueued = true ∧ s.finSent = false)
  | .retransmit low high => low < high ∧ ∀ x, low ≤ x → x < high → s.lost.Contains x
  | _ => False

/-- A send stream, everything that was ever written to it, and the ranges acknowledged so far. -/
structure Transmission where
  stream : QUICSendStream
  queued : Bytes := []
  settled : List ByteRange := []

namespace Transmission

def step (t : Transmission) : SendCall → Transmission
  | .write p => { t with stream := t.stream.write p, queued := t.queued ++ p }
  | .sendNew n fin => { t with stream := { t.stream with
      sent := max t.stream.sent (t.stream.sent + n)
      finSent := t.stream.finSent || fin } }
  | .retransmit low high => { t with stream := { t.stream with
      lost := t.stream.lost.subtract low high
      sent := max t.stream.sent high } }
  | .acknowledge low high => { t with
      stream := t.stream.acknowledge low high
      settled := ⟨low, high⟩ :: t.settled }
  | .declareLost low high => { t with stream := t.stream.declareLost low high }

def run (t : Transmission) (calls : List SendCall) : Transmission := calls.foldl step t

def Obeys (t : Transmission) : List SendCall → Prop
  | [] => True
  | call :: rest => call.Allowed t.stream ∧ Obeys (t.step call) rest

/-- What every call keeps. -/
structure Kept (t : Transmission) : Prop where
  acked : Spread 0 t.stream.acked.ranges
  lost : Spread 0 t.stream.lost.ranges
  sound : t.stream.Sound
  base : t.stream.base ≤ t.stream.sent
  below : ∀ x < t.stream.base, t.stream.acked.Contains x
  apart : ∀ x, t.stream.lost.Contains x → ¬t.stream.acked.Contains x
  data : t.stream.data = t.queued.drop t.stream.base
  within : t.stream.base ≤ t.queued.length
  settled : ∀ x, t.stream.acked.Contains x ↔ Covers t.settled x

variable {t : Transmission}

theorem Kept.write (kept : Kept t) (p : Bytes) : Kept (t.step (.write p)) where
  acked := kept.acked
  lost := kept.lost
  sound := by
    have queued := kept.sound.sent
    refine ⟨kept.sound.acked, kept.sound.lost, ?_⟩
    show t.stream.sent ≤ t.stream.base + (t.stream.data ++ p).length
    rw [length_append, ← Nat.add_assoc]
    exact queued.trans (Nat.le_add_right _ _)
  base := kept.base
  below := kept.below
  apart := kept.apart
  data := by
    show t.stream.data ++ p = (t.queued ++ p).drop t.stream.base
    rw [drop_append_of_le_length kept.within, kept.data]
  within := by
    show t.stream.base ≤ (t.queued ++ p).length
    rw [length_append]
    exact kept.within.trans (Nat.le_add_right _ _)
  settled := kept.settled

theorem Kept.sendNew (kept : Kept t) {n : Nat} (allowed : n ≤ t.stream.pending) (fin : Bool) :
    Kept (t.step (.sendNew n fin)) where
  acked := kept.acked
  lost := kept.lost
  sound := by
    have most := kept.sound.sent
    unfold QUICSendStream.pending at allowed
    refine ⟨kept.sound.acked.mono (le_max_left _ _), kept.sound.lost.mono (le_max_left _ _), ?_⟩
    show max t.stream.sent (t.stream.sent + n) ≤ t.stream.written
    omega
  base := kept.base.trans (le_max_left _ _)
  below := kept.below
  apart := kept.apart
  data := kept.data
  within := kept.within
  settled := kept.settled

variable {low high : Nat}

theorem Kept.retransmit (kept : Kept t) (allowed : high ≤ t.stream.sent) : Kept (t.step (.retransmit low high)) where
  acked := kept.acked
  lost := QUICByteRanges.subtract_spread kept.lost low high
  sound := by
    refine ⟨kept.sound.acked.mono (le_max_left _ _), (kept.sound.lost.subtract allowed).mono (le_max_left _ _), ?_⟩
    show max t.stream.sent high ≤ t.stream.written
    rw [max_eq_left allowed]
    exact kept.sound.sent
  base := kept.base.trans (le_max_left _ _)
  below := kept.below
  apart := by
    intro x owed
    exact kept.apart x ((QUICByteRanges.contains_subtract kept.lost low high x).mp owed).1
  data := kept.data
  within := kept.within
  settled := kept.settled

theorem Kept.acknowledge (kept : Kept t) (allowed : high ≤ t.stream.sent) : Kept (t.step (.acknowledge low high)) := by
  have grown := QUICByteRanges.contains_add kept.acked low high
  have most : (t.stream.acked.add low high).contiguousEnd t.stream.base ≤ max t.stream.base t.stream.sent :=
    QUICByteRanges.contiguousEnd_le (kept.sound.acked.add allowed)
  have base := t.stream.acknowledge_base low high
  have reached := kept.base
  have queued := kept.sound.sent
  have total : t.stream.written = t.queued.length := by
    unfold QUICSendStream.written
    rw [kept.data, length_drop]
    have inside := kept.within
    omega
  refine ⟨?_, ?_, kept.sound.acknowledge allowed, ?_, ?_, ?_, ?_, ?_, ?_⟩
  · show Spread 0 (t.stream.acknowledge low high).acked.ranges
    rw [QUICSendStream.acknowledge_acked]
    exact QUICByteRanges.add_spread kept.acked low high
  · show Spread 0 (t.stream.acknowledge low high).lost.ranges
    rw [QUICSendStream.acknowledge_lost]
    exact QUICByteRanges.subtract_spread kept.lost low high
  · show (t.stream.acknowledge low high).base ≤ (t.stream.acknowledge low high).sent
    rw [base, QUICSendStream.acknowledge_sent]
    omega
  · show ∀ x < (t.stream.acknowledge low high).base, (t.stream.acknowledge low high).acked.Contains x
    intro x less
    rw [base] at less
    rw [QUICSendStream.acknowledge_acked]
    by_cases old : x < t.stream.base
    · exact (grown x).mpr (.inl (kept.below x old))
    · exact QUICByteRanges.contains_of_lt_contiguousEnd (not_lt.mp old) (by omega)
  · show ∀ x, (t.stream.acknowledge low high).lost.Contains x → ¬(t.stream.acknowledge low high).acked.Contains x
    intro x owed
    rw [QUICSendStream.acknowledge_lost, QUICByteRanges.contains_subtract kept.lost] at owed
    rw [QUICSendStream.acknowledge_acked, grown x]
    rintro (old | new)
    · exact kept.apart x owed.1 old
    · exact owed.2 new
  · show (t.stream.acknowledge low high).data = t.queued.drop (t.stream.acknowledge low high).base
    rw [QUICSendStream.acknowledge_data, kept.data, drop_drop, base]
    congr 1
    omega
  · show (t.stream.acknowledge low high).base ≤ t.queued.length
    rw [base]
    omega
  · show ∀ x, (t.stream.acknowledge low high).acked.Contains x ↔ Covers (⟨low, high⟩ :: t.settled) x
    intro x
    rw [QUICSendStream.acknowledge_acked, grown x, kept.settled x, covers_cons]
    exact or_comm

theorem Kept.declareLost (kept : Kept t) (allowed : high ≤ t.stream.sent) : Kept (t.step (.declareLost low high)) := by
  obtain ⟨spread, owes⟩ := QUICSendStream.declareLost_lost kept.acked kept.lost low high
  have acked := t.stream.declareLost_acked low high
  have base := t.stream.declareLost_base low high
  have data := t.stream.declareLost_data low high
  have sent := t.stream.declareLost_sent low high
  refine ⟨?_, spread, kept.sound.declareLost allowed, ?_, ?_, ?_, ?_, ?_, ?_⟩
  · show Spread 0 (t.stream.declareLost low high).acked.ranges
    rw [acked]
    exact kept.acked
  · show (t.stream.declareLost low high).base ≤ (t.stream.declareLost low high).sent
    rw [base, sent]
    exact kept.base
  · show ∀ x < (t.stream.declareLost low high).base, (t.stream.declareLost low high).acked.Contains x
    rw [base, acked]
    exact kept.below
  · show ∀ x, (t.stream.declareLost low high).lost.Contains x → ¬(t.stream.declareLost low high).acked.Contains x
    intro x owed
    rw [acked]
    rcases owes x owed with old | new
    · exact kept.apart x old
    · exact new.2
  · show (t.stream.declareLost low high).data = t.queued.drop (t.stream.declareLost low high).base
    rw [data, base]
    exact kept.data
  · show (t.stream.declareLost low high).base ≤ t.queued.length
    rw [base]
    exact kept.within
  · show ∀ x, (t.stream.declareLost low high).acked.Contains x ↔ Covers t.settled x
    rw [acked]
    exact kept.settled

theorem Kept.step (kept : Kept t) (call : SendCall) (allowed : call.Allowed t.stream) : Kept (t.step call) := by
  cases call with
  | write p => exact kept.write p
  | sendNew n fin => exact kept.sendNew allowed fin
  | retransmit low high => exact kept.retransmit allowed
  | acknowledge low high => exact kept.acknowledge allowed
  | declareLost low high => exact kept.declareLost allowed

theorem Kept.run (kept : Kept t) (calls : List SendCall) (obeys : t.Obeys calls) : Kept (t.run calls) := by
  induction calls generalizing t with
  | nil => exact kept
  | cons call rest ih => exact ih (kept.step call obeys.1) obeys.2

theorem kept_new (limit : Nat) : Kept { stream := { limit := limit } } where
  acked := trivial
  lost := trivial
  sound := ⟨by simp [QUICByteRanges.Below], by simp [QUICByteRanges.Below], le_rfl⟩
  base := le_rfl
  below := by simp
  apart := by simp [QUICByteRanges.Contains]
  data := rfl
  within := le_rfl
  settled := by simp [QUICByteRanges.Contains]

theorem Kept.owed (kept : Kept t) {x : Nat} (owed : t.stream.lost.Contains x) :
    t.stream.base ≤ x ∧ x < t.stream.sent := by
  constructor
  · by_contra short
    exact kept.apart x owed (kept.below x (not_le.mp short))
  · obtain ⟨range, member, -, less⟩ := owed
    exact less.trans_le (kept.sound.lost range member)

variable {s : QUICSendStream}

theorem slice_isSome {offset n : Nat} (above : s.base ≤ offset)
    (below : offset + n ≤ s.written) : (s.slice offset n).isSome := by
  unfold QUICSendStream.slice
  rw [if_neg (not_lt.mpr above)]
  extract_lets index
  have fits : ¬s.data.length < index + n := by
    unfold QUICSendStream.written at below
    omega
  rw [if_neg fits]
  rfl

theorem Kept.first (kept : Kept t) {range : ByteRange} {rest : List ByteRange}
    (found : t.stream.lost.ranges = range :: rest) :
    t.stream.base ≤ range.low ∧ range.low < range.high ∧ range.high ≤ t.stream.sent := by
  have member : range ∈ t.stream.lost.ranges := by
    rw [found]
    exact mem_cons_self
  have proper := kept.lost.proper range member
  have start : t.stream.lost.Contains range.low := ⟨range, member, le_rfl, proper⟩
  exact ⟨(kept.owed start).1, proper, kept.sound.lost range member⟩

theorem allowed_le {connectionRoom available : Nat} {stretch : Turn.Stretch}
    (allowed : Turn.allowed s connectionRoom stretch = some available) :
    available ≤ stretch.available := by
  unfold Turn.allowed at allowed
  extract_lets finPending atEnd limited at allowed
  split_ifs at allowed
  all_goals simp only [Option.some.injEq] at allowed
  all_goals omega

theorem allowed_pos {connectionRoom available : Nat} {stretch : Turn.Stretch}
    (allowed : Turn.allowed s connectionRoom stretch = some available) (again : stretch.isRetransmit = true) :
    0 < available := by
  unfold Turn.allowed at allowed
  rw [again] at allowed
  simp only [Bool.true_or, and_true, if_true] at allowed
  split_ifs at allowed with empty
  cases allowed
  exact Nat.pos_of_ne_zero empty

variable {length : Nat}

theorem Kept.nextStretch (kept : Kept t) (within : length ≤ (Turn.nextStretch t.stream).available) :
    (t.stream.slice (Turn.nextStretch t.stream).offset length).isSome := by
  have most := kept.sound.sent
  unfold Turn.nextStretch at within ⊢
  split at within
  next range rest found =>
    obtain ⟨above, proper, below⟩ := kept.first found
    simp only at within ⊢
    exact slice_isSome above (by omega)
  next found =>
    simp only at within ⊢
    exact slice_isSome kept.base (by omega)

theorem Kept.cryptoStretch (kept : Kept t)
    (within : length ≤ (Draft.cryptoStretch t.stream).high - (Draft.cryptoStretch t.stream).low) :
    (t.stream.slice (Draft.cryptoStretch t.stream).low length).isSome := by
  have most := kept.sound.sent
  unfold Draft.cryptoStretch at within ⊢
  split at within
  next range rest found =>
    obtain ⟨above, proper, below⟩ := kept.first found
    exact slice_isSome above (by omega)
  next found =>
    simp only at within ⊢
    exact slice_isSome kept.base (by omega)

/-- The call that a frame with `length` bytes of the next stretch amounts to. -/
def frameCall (s : QUICSendStream) (length : Nat) (fin : Bool) : SendCall :=
  if (Turn.nextStretch s).isRetransmit then
    .retransmit (Turn.nextStretch s).offset ((Turn.nextStretch s).offset + length)
  else .sendNew length fin

theorem Kept.due_again (kept : Kept t) {range : ByteRange} {rest : List ByteRange}
    (found : t.stream.lost.ranges = range :: rest) (some' : 0 < length)
    (within : length ≤ range.high - range.low) :
    (SendCall.retransmit range.low (range.low + length)).Due t.stream := by
  obtain ⟨-, proper, -⟩ := kept.first found
  refine ⟨by omega, fun x low high => ⟨range, ?_, low, by omega⟩⟩
  rw [found]
  exact mem_cons_self

theorem Kept.frameCall_due (kept : Kept t) {fin : Bool} (within : length ≤ (Turn.nextStretch t.stream).available)
    (some' : (Turn.nextStretch t.stream).isRetransmit = true → 0 < length)
    (finishes : fin = true → t.stream.finQueued = true ∧ t.stream.finSent = false) :
    (frameCall t.stream length fin).Due t.stream := by
  unfold frameCall
  unfold Turn.nextStretch at within some' ⊢
  cases found : t.stream.lost.ranges with
  | nil =>
    rw [found] at within
    exact ⟨found, within, finishes⟩
  | cons range rest =>
    rw [found] at within some'
    exact kept.due_again found (some' rfl) within

theorem step_frameCall (turn : Turn) (id length : Nat) {fin : Bool}
    (last : (Turn.nextStretch turn.stream.send).isRetransmit = true → fin = false)
    (same : t.stream = turn.stream.send) :
    (t.step (frameCall t.stream length fin)).stream = (turn.recordStream id
      (Turn.nextStretch turn.stream.send).offset length fin
      (Turn.nextStretch turn.stream.send).isRetransmit).stream.send := by
  unfold frameCall
  rw [same]
  cases again : (Turn.nextStretch turn.stream.send).isRetransmit with
  | true => simp [step, Turn.recordStream, same, last again]
  | false =>
    have new : (Turn.nextStretch turn.stream.send).offset = turn.stream.send.sent := by
      unfold Turn.nextStretch at again ⊢
      split at again
      · cases again
      · rfl
    simp [step, Turn.recordStream, same, new]

instance (s : QUICSendStream) : DecidablePred (SendCall.Allowed s) := fun call => by
  apply SendCall.casesOn (motive := fun call => Decidable (call.Allowed s)) call <;>
    intros <;> dsimp only [SendCall.Allowed] <;> infer_instance

/-- Whatever is written, sent, sent again, acknowledged and lost, in whatever order: `base`, `sent`
and `written` are in order; what lies below `base` has been acknowledged; what is owed again has not,
and lies between `base` and `sent`; the stretches that `writeOneStream` and `writeCrypto` pick are in
the buffer; and the buffer holds all that was written but a prefix whose bytes were all acknowledged. -/
theorem owed_is_buffered (limit : Nat) (calls : List SendCall) (obeys : Obeys { stream := { limit := limit } } calls) :
    let t := run { stream := { limit := limit } } calls
    (t.stream.base ≤ t.stream.sent ∧ t.stream.sent ≤ t.stream.written) ∧
      (∀ x < t.stream.base, t.stream.acked.Contains x) ∧
      (∀ x, t.stream.lost.Contains x → ¬t.stream.acked.Contains x ∧ t.stream.base ≤ x ∧ x < t.stream.sent) ∧
      (∀ connectionRoom available length,
        Turn.allowed t.stream connectionRoom (Turn.nextStretch t.stream) = some available →
        length ≤ available → (t.stream.slice (Turn.nextStretch t.stream).offset length).isSome) ∧
      (∀ length ≤ (Draft.cryptoStretch t.stream).high - (Draft.cryptoStretch t.stream).low,
        (t.stream.slice (Draft.cryptoStretch t.stream).low length).isSome) ∧
      t.stream.data = t.queued.drop t.stream.base ∧
      ∀ x < t.stream.base, Covers t.settled x := by
  intro t
  have kept : Kept t := (kept_new limit).run calls obeys
  refine ⟨⟨kept.base, kept.sound.sent⟩, kept.below, ?_, ?_, ?_, kept.data, ?_⟩
  · intro x owed
    exact ⟨kept.apart x owed, kept.owed owed⟩
  · intro connectionRoom available length allowed within
    exact kept.nextStretch (within.trans (allowed_le allowed))
  · intro length within
    exact kept.cryptoStretch within
  · intro x less
    exact (kept.settled x).mp (kept.below x less)

/-- Six bytes in two frames; the second is acknowledged, the first is lost, sent again in part and
acknowledged in part. -/
theorem owed_is_buffered_partly :
    let calls : List SendCall := [.write [1, 2, 3, 4, 5, 6], .sendNew 3 false, .sendNew 3 true,
      .acknowledge 3 6, .declareLost 0 6, .retransmit 0 2, .acknowledge 0 2]
    let t := run { stream := { limit := 10 } } calls
    t.stream.base = 2 ∧ t.stream.data = [3, 4, 5, 6] ∧ t.stream.lost.ranges = [⟨2, 3⟩] ∧
      t.stream.base ≤ t.stream.sent := by
  intro calls t
  have obeys : Obeys { stream := { limit := 10 } } calls := by
    simp only [calls, Obeys]
    decide
  exact ⟨by decide, by decide, by decide, (owed_is_buffered 10 calls obeys).1.1⟩

end Transmission
end AvianCore.Quic
