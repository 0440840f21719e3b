import AvianCore.Quic.Varint

/-!
Frame types, transport errors, stream identifiers and acknowledgement ranges.
-/

namespace AvianCore.Quic
open Nat

/-- The frame types the server reads or writes. A STREAM type carries its three low bits. -/
inductive FrameType where
  | padding | ping | ack | ackECN | resetStream | stopSending | crypto | newToken
  | stream (bits : Nat)
  | maxData | maxStreamData | maxStreamsBidi | maxStreamsUni | dataBlocked | streamDataBlocked
  | streamsBlockedBidi | streamsBlockedUni | newConnectionID | retireConnectionID
  | pathChallenge | pathResponse | connectionCloseTransport | connectionCloseApplication
  | handshakeDone | datagram | datagramWithLength
  deriving DecidableEq, Repr

namespace FrameType

def ofCode (code : Nat) : Option FrameType :=
  if 0x08 ≤ code ∧ code ≤ 0x0f then some (.stream (code - 0x08)) else
  match code with
  | 0x00 => some .padding
  | 0x01 => some .ping
  | 0x02 => some .ack
  | 0x03 => some .ackECN
  | 0x04 => some .resetStream
  | 0x05 => some .stopSending
  | 0x06 => some .crypto
  | 0x07 => some .newToken
  | 0x10 => some .maxData
  | 0x11 => some .maxStreamData
  | 0x12 => some .maxStreamsBidi
  | 0x13 => some .maxStreamsUni
  | 0x14 => some .dataBlocked
  | 0x15 => some .streamDataBlocked
  | 0x16 => some .streamsBlockedBidi
  | 0x17 => some .streamsBlockedUni
  | 0x18 => some .newConnectionID
  | 0x19 => some .retireConnectionID
  | 0x1a => some .pathChallenge
  | 0x1b => some .pathResponse
  | 0x1c => some .connectionCloseTransport
  | 0x1d => some .connectionCloseApplication
  | 0x1e => some .handshakeDone
  | 0x30 => some .datagram
  | 0x31 => some .datagramWithLength
  | _ => none

def code : FrameType → Nat
  | padding => 0x00
  | ping => 0x01
  | ack => 0x02
  | ackECN => 0x03
  | resetStream => 0x04
  | stopSending => 0x05
  | crypto => 0x06
  | newToken => 0x07
  | stream bits => 0x08 + bits
  | maxData => 0x10
  | maxStreamData => 0x11
  | maxStreamsBidi => 0x12
  | maxStreamsUni => 0x13
  | dataBlocked => 0x14
  | streamDataBlocked => 0x15
  | streamsBlockedBidi => 0x16
  | streamsBlockedUni => 0x17
  | newConnectionID => 0x18
  | retireConnectionID => 0x19
  | pathChallenge => 0x1a
  | pathResponse => 0x1b
  | connectionCloseTransport => 0x1c
  | connectionCloseApplication => 0x1d
  | handshakeDone => 0x1e
  | datagram => 0x30
  | datagramWithLength => 0x31

def streamFin : Nat := 0x01
def streamLength : Nat := 0x02
def streamOffset : Nat := 0x04

/-- Whether the optional field behind `bit` is there. -/
def hasBit (bits bit : Nat) : Bool := bits &&& bit != 0

def allowedDuringHandshake (type : Nat) : Bool :=
  match ofCode type with
  | some .padding | some .ping | some .ack | some .ackECN | some .crypto
  | some .connectionCloseTransport => true
  | _ => false

def isAckEliciting (type : Nat) : Bool :=
  match ofCode type with
  | some .padding | some .ack | some .ackECN | some .connectionCloseTransport
  | some .connectionCloseApplication => false
  | _ => true

end FrameType

inductive QUICError where
  | noError | internalError | connectionRefused | flowControlError | streamLimitError
  | streamStateError | finalSizeError | frameEncodingError | transportParameterError
  | connectionIDLimitError | protocolViolation | invalidToken | applicationError
  | cryptoBufferExceeded | keyUpdateError | aeadLimitReached | noViablePath
  deriving DecidableEq, Repr

def QUICError.rawValue : QUICError → Nat
  | noError => 0x00
  | internalError => 0x01
  | connectionRefused => 0x02
  | flowControlError => 0x03
  | streamLimitError => 0x04
  | streamStateError => 0x05
  | finalSizeError => 0x06
  | frameEncodingError => 0x07
  | transportParameterError => 0x08
  | connectionIDLimitError => 0x09
  | protocolViolation => 0x0a
  | invalidToken => 0x0b
  | applicationError => 0x0c
  | cryptoBufferExceeded => 0x0d
  | keyUpdateError => 0x0e
  | aeadLimitReached => 0x0f
  | noViablePath => 0x10

def quicCryptoError (alert : Nat) : Nat := 0x0100 ||| alert

namespace QUICStreamKind

def isClientInitiated (id : Nat) : Bool := id &&& 0x01 == 0
def isServerInitiated (id : Nat) : Bool := id &&& 0x01 == 1
def isBidirectional (id : Nat) : Bool := id &&& 0x02 == 0
def isUnidirectional (id : Nat) : Bool := id &&& 0x02 == 2
def index (id : Nat) : Nat := id >>> 2

def id (index : Nat) (serverInitiated unidirectional : Bool) : Nat :=
  (index <<< 2) ||| (if serverInitiated then 0x01 else 0x00)
    ||| (if unidirectional then 0x02 else 0x00)

theorem id_eq (index : Nat) (serverInitiated unidirectional : Bool) : id index serverInitiated unidirectional =
    4 * index + (if serverInitiated then 1 else 0) + (if unidirectional then 2 else 0) := by
  have low : ∀ b < 4, (index <<< 2) ||| b = 4 * index + b := by
    intro b small
    rw [shiftLeft_eq, mul_comm index, ← two_pow_add_eq_or_of_lt small]
  unfold id
  rw [Nat.or_assoc]
  cases serverInitiated <;> cases unidirectional <;> exact low _ (by decide)

variable (id : Nat)

theorem isServerInitiated_iff : isServerInitiated id = true ↔ id % 2 = 1 := by
  simp [isServerInitiated, and_one_is_mod]

theorem isClientInitiated_iff : isClientInitiated id = true ↔ id % 2 = 0 := by
  simp [isClientInitiated, and_one_is_mod]

theorem and_two : id &&& 2 = if id / 2 % 2 = 1 then 2 else 0 := by
  have bit := and_two_pow id 1
  rw [testBit_eq_decide_div_mod_eq] at bit
  simp only [pow_one] at bit
  rw [bit]
  split_ifs with odd <;> simp [odd]

theorem isUnidirectional_iff : isUnidirectional id = true ↔ id / 2 % 2 = 1 := by
  unfold isUnidirectional
  rw [and_two]
  split_ifs with odd <;> simp [odd]

theorem isBidirectional_iff : isBidirectional id = true ↔ id / 2 % 2 = 0 := by
  unfold isBidirectional
  rw [and_two]
  split_ifs with odd <;> simp <;> omega

theorem index_eq : index id = id / 4 := by
  simp [index, shiftRight_eq_div_pow]

@[simp] theorem isServerInitiated_id (index : Nat) (serverInitiated unidirectional : Bool) :
    isServerInitiated (QUICStreamKind.id index serverInitiated unidirectional) = serverInitiated := by
  rw [Bool.eq_iff_iff, isServerInitiated_iff, id_eq]
  cases serverInitiated <;> cases unidirectional <;>
    simp only [Bool.false_eq_true, if_true, if_false, iff_true, iff_false] <;> omega

@[simp] theorem isUnidirectional_id (index : Nat) (serverInitiated unidirectional : Bool) :
    isUnidirectional (QUICStreamKind.id index serverInitiated unidirectional) = unidirectional := by
  rw [Bool.eq_iff_iff, isUnidirectional_iff, id_eq]
  cases serverInitiated <;> cases unidirectional <;>
    simp only [Bool.false_eq_true, if_true, if_false, iff_true, iff_false] <;> omega

@[simp] theorem index_id (index : Nat) (serverInitiated unidirectional : Bool) :
    QUICStreamKind.index (QUICStreamKind.id index serverInitiated unidirectional) = index := by
  rw [index_eq, id_eq]
  cases serverInitiated <;> cases unidirectional <;> simp only [Bool.false_eq_true, if_true, if_false] <;> omega

theorem id_parts : QUICStreamKind.id (index id) (isServerInitiated id) (isUnidirectional id) = id := by
  have server := isServerInitiated_iff id
  have kind := isUnidirectional_iff id
  rw [id_eq, index_eq]
  cases initiator : isServerInitiated id <;> cases direction : isUnidirectional id <;>
    simp only [initiator, direction, Bool.false_eq_true, false_iff, true_iff, if_true,
      if_false] at server kind ⊢ <;> omega

theorem id_index (client : isServerInitiated id = false) :
    QUICStreamKind.id (index id) false (isUnidirectional id) = id := by
  rw [← client]
  exact id_parts id

end QUICStreamKind

/-- An inclusive range of packet numbers. -/
structure PacketRange where
  low : Nat
  high : Nat
  deriving DecidableEq, Repr

def PacketRange.contains (range : PacketRange) (packetNumber : Nat) : Bool :=
  range.low ≤ packetNumber && packetNumber ≤ range.high

/-- The received packet numbers as descending ranges, highest first. -/
structure QUICAckRanges where
  ranges : List PacketRange := []
  maximumRanges : Nat := 32
  deriving DecidableEq, Repr

namespace QUICAckRanges

def isEmpty (acks : QUICAckRanges) : Bool := acks.ranges.isEmpty

def largest (acks : QUICAckRanges) : Option Nat := acks.ranges.head?.map PacketRange.high

def contains (acks : QUICAckRanges) (packetNumber : Nat) : Bool :=
  acks.ranges.any (fun range => range.contains packetNumber)

/-- The walk of `add`: `above` holds the ranges already passed, nearest first. -/
def place (packetNumber : Nat) : List PacketRange → List PacketRange → List PacketRange × Bool
  | above, [] => (above.reverse ++ [⟨packetNumber, packetNumber⟩], true)
  | above, r :: below =>
    if r.contains packetNumber then (above.reverse ++ r :: below, false)
    else if packetNumber = r.high + 1 then
      -- the gap above may have closed
      match above with
      | near :: far =>
        if near.low = packetNumber + 1 then
          (far.reverse ++ ⟨r.low, near.high⟩ :: below, false)
        else (above.reverse ++ ⟨r.low, packetNumber⟩ :: below, false)
      | [] => (⟨r.low, packetNumber⟩ :: below, false)
    else if 0 < r.low ∧ packetNumber = r.low - 1 then
      match below with
      | next :: rest =>
        if next.high + 1 = packetNumber then
          (above.reverse ++ ⟨next.low, r.high⟩ :: rest, false)
        else (above.reverse ++ ⟨packetNumber, r.high⟩ :: below, false)
      | [] => (above.reverse ++ [⟨packetNumber, r.high⟩], false)
    else if r.high < packetNumber then
      (above.reverse ++ ⟨packetNumber, packetNumber⟩ :: r :: below, true)
    else place packetNumber (r :: above) below

/-- Only a new range can push the set past its maximum, and then the oldest goes. For no packet number does `&+ 1` wrap. -/
def add (acks : QUICAckRanges) (packetNumber : Nat) : QUICAckRanges :=
  let (ranges, inserted) := place packetNumber [] acks.ranges
  if inserted then { acks with ranges := ranges.take acks.maximumRanges }
  else { acks with ranges := ranges }

def trim (packetNumber : Nat) : List PacketRange → List PacketRange
  | [] => []
  | last :: rest =>
    if last.high ≤ packetNumber then trim packetNumber rest
    else if last.low ≤ packetNumber then ⟨packetNumber + 1, last.high⟩ :: rest
    else last :: rest

def removeUpTo (acks : QUICAckRanges) (packetNumber : Nat) : QUICAckRanges :=
  { acks with ranges := (trim packetNumber acks.ranges.reverse).reverse }

def clear (acks : QUICAckRanges) : QUICAckRanges := { acks with ranges := [] }

end QUICAckRanges

def writeAckGaps (previousLow : Nat) : List PacketRange → Bytes
  | [] => []
  | r :: rest =>
    quicWriteVarint (previousLow - r.high - 2) ++ quicWriteVarint (r.high - r.low)
      ++ writeAckGaps r.low rest

def writeAckFrame (acks : QUICAckRanges) (delay : Nat) : Bytes :=
  match acks.ranges with
  | [] => []
  | first :: rest =>
    quicWriteVarint FrameType.ack.code ++ quicWriteVarint first.high ++ quicWriteVarint delay
      ++ quicWriteVarint rest.length ++ quicWriteVarint (first.high - first.low)
      ++ writeAckGaps first.low rest

/-- The loop of `quicReadAckFrame`: `count` more ranges, each strictly below `smallest`. The
fuel is the length of the input, which every turn shortens. -/
def readAckRanges : Nat → Nat → Nat → QUICReader → Option (List PacketRange × QUICReader)
  | _, 0, _, r => some ([], r)
  | 0, _ + 1, _, _ => none
  | fuel + 1, count + 1, smallest, r => do
    let (gap, r) ← r.varint
    let (length, r) ← r.varint
    let step := addWrapping gap 2
    if smallest < step then none
    else
      let high := smallest - step
      if high < length then none
      else
        let (ranges, r) ← readAckRanges fuel count (high - length) r
        some (⟨high - length, high⟩ :: ranges, r)

/-- Reads an ACK frame after its type. The result is the ranges, highest first, and the delay. -/
def quicReadAckFrame (r : QUICReader) (hasECN : Bool) :
    Option (List PacketRange × Nat × QUICReader) := do
  let (largest, r) ← r.varint
  let (delay, r) ← r.varint
  let (count, r) ← r.varint
  let (firstRange, r) ← r.varint
  if largest < firstRange then none
  else
    let (ranges, r) ← readAckRanges (r.remaining + 1) count (largest - firstRange) r
    let found := (⟨largest - firstRange, largest⟩ : PacketRange) :: ranges
    if hasECN then
      let (_, r) ← r.varint
      let (_, r) ← r.varint
      let (_, r) ← r.varint
      some (found, delay, r)
    else some (found, delay, r)

end AvianCore.Quic
