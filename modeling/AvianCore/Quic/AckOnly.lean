import AvianCore.Quic.Emission

/-!
Packets with nothing but an ACK frame. When there is nothing else to put in them, the packets of a
datagram, and where each ends, follow from the acknowledgements that are due.
-/

namespace AvianCore.Quic
open AvianCore.Lib List

namespace QUICConnection

def ackFrame (c : QUICConnection) (level : QUICLevel) (nowMs : Nat) : Bytes :=
  writeAckFrame (c.spaces.get level).acks ((c.ackDelay level nowMs).getD 0)

/-- The header of the next packet of a level, up to the packet number. -/
def nextHeader (c : QUICConnection) (level : QUICLevel) : Bytes := c.headerBytes level (c.packetNumberLength level)

def ackSize (c : QUICConnection) (level : QUICLevel) (nowMs : Nat) : Nat :=
  (c.nextHeader level).length + c.packetNumberLength level + (c.ackFrame level nowMs).length
    + quicAEADTagLength

/-- An ACK is due at a level that may send, and there is room for it. -/
def ackFits (c : QUICConnection) (level : QUICLevel) (nowMs limit start : Nat) : Bool :=
  c.maySend level && (c.spaces.get level).ackPending && !(c.spaces.get level).acks.isEmpty &&
    decide (start + 32 + quicAEADTagLength ≤ limit) && decide (start + c.ackSize level nowMs ≤ limit)

def ackPacket (c : QUICConnection) (level : QUICLevel) (nowMs start : Nat) : PlannedPacket where
  level := level
  start := start
  lengthOffset := if level = .application then 0 else start + (c.nextHeader level).length - 2
  pnOffset := start + (c.nextHeader level).length
  pnLength := c.packetNumberLength level
  payloadLength := (c.ackFrame level nowMs).length
  «end» := start + c.ackSize level nowMs
  packetNumber := (c.spaces.get level).nextPacketNumber
  ackEliciting := false
  largestAcked := (c.spaces.get level).acks.largest
  frames := {}
  bytes := c.nextHeader level ++ List.replicate (c.packetNumberLength level) 0
    ++ c.ackFrame level nowMs

def acknowledged (c : QUICConnection) (level : QUICLevel) : QUICConnection :=
  { c with spaces := c.spaces.set level { c.spaces.get level with
      ackPending := false
      ackElicitingPending := false
      ackDeadlineMs := 0 } }

def ackPackets (c : QUICConnection) (nowMs limit : Nat) : List QUICLevel → Nat → List PlannedPacket
  | [], _ => []
  | level :: rest, start =>
    if c.ackFits level nowMs limit start then
      c.ackPacket level nowMs start :: ackPackets c nowMs limit rest (start + c.ackSize level nowMs)
    else ackPackets c nowMs limit rest start

def Plain (c : QUICConnection) (ackOnly : Bool) : Prop :=
  ∀ (d : Draft) (level : QUICLevel), d.conn.toSpaceState.cryptoSend = c.cryptoSend →
    d.conn.toFlow = c.toFlow → d.conn.toDatagramQueues = c.toDatagramQueues →
      d.conn.toPendingFrames = c.toPendingFrames → d.fill level ackOnly = d

theorem plain_ackOnly (c : QUICConnection) : c.Plain true := by
  intro d level _ _ _ _
  rfl

theorem length_ackFrame {acks : QUICAckRanges} (some : acks.isEmpty = false) (delay : Nat) :
    5 ≤ (writeAckFrame acks delay).length := by
  unfold writeAckFrame
  split
  next none => simp [QUICAckRanges.isEmpty, none] at some
  next first rest _ =>
    have positive : ∀ value, 1 ≤ quicVarintLength value := by
      intro value
      unfold quicVarintLength
      split_ifs <;> omega
    have one := positive FrameType.ack.code
    have two := positive first.high
    have three := positive delay
    have four := positive rest.length
    have five := positive (first.high - first.low)
    simp only [length_append, length_quicWriteVarint]
    omega

theorem writeAck_eq (c : QUICConnection) (writer : QUICFrameWriter) (level : QUICLevel) (nowMs : Nat) :
    Draft.writeAck { conn := c, writer := writer } level nowMs =
      if ((c.spaces.get level).ackPending = true ∧ (c.spaces.get level).acks.isEmpty = false) ∧
          ((c.ackFrame level nowMs).length : Int) ≤ writer.room then
        ({ conn := c.acknowledged level
           writer := writer.bytes (c.ackFrame level nowMs) (c.ackFrame level nowMs).length },
          (c.spaces.get level).acks.largest)
      else ({ conn := c, writer := writer }, none) := by
  unfold Draft.writeAck
  extract_lets space scratch
  by_cases due : space.ackPending = true ∧ space.acks.isEmpty = false
  · have owed : space.ackPending = true ∧ (!space.acks.isEmpty) = true := by simpa using due
    rw [if_pos owed]
    by_cases room : (scratch.length : Int) ≤ writer.room
    · rw [if_pos room, if_pos ⟨due, room⟩]
      rfl
    · rw [if_neg room, if_neg fun both => room both.2]
  · have owed : ¬(space.ackPending = true ∧ (!space.acks.isEmpty) = true) := by simpa using due
    rw [if_neg owed, if_neg fun both => due both.1]

variable {c : QUICConnection} {level : QUICLevel}

theorem buildPacket_plain {ackOnly : Bool} (plain : c.Plain ackOnly)
    (may : c.maySend level = true) (start limit nowMs : Nat) :
    c.buildPacket level start limit ackOnly nowMs = if c.ackFits level nowMs limit start then
        (c.acknowledged level, some (c.ackPacket level nowMs start))
      else (c, none) := by
  have tag : quicAEADTagLength = 16 := rfl
  have size : c.ackSize level nowMs = (c.nextHeader level).length + c.packetNumberLength level
    + (c.ackFrame level nowMs).length + quicAEADTagLength := rfl
  have fits : c.ackFits level nowMs limit start = true ↔
      ((c.spaces.get level).ackPending = true ∧ (c.spaces.get level).acks.isEmpty = false) ∧
        start + 32 + quicAEADTagLength ≤ limit ∧ start + c.ackSize level nowMs ≤ limit := by
    simp [ackFits, may, and_assoc]
  unfold buildPacket
  extract_lets bodyLimit pnLength header pnOffset writer
  have body : bodyLimit = limit - quicAEADTagLength := rfl
  have number : pnOffset = start + (c.nextHeader level).length := rfl
  have length : pnLength = c.packetNumberLength level := rfl
  have room : writer.room = (bodyLimit : Int) - (pnOffset + pnLength : Nat) := rfl
  by_cases short : bodyLimit < start + 32
  · rw [if_pos short, if_neg]
    rw [fits]
    omega
  rw [if_neg short]
  by_cases narrow : bodyLimit ≤ pnOffset + pnLength
  · rw [if_pos narrow, if_neg]
    rw [fits]
    rintro ⟨⟨-, some⟩, -, enough⟩
    have least : 5 ≤ (c.ackFrame level nowMs).length := length_ackFrame some _
    omega
  rw [if_neg narrow, writeAck_eq]
  by_cases due : ((c.spaces.get level).ackPending = true ∧ (c.spaces.get level).acks.isEmpty = false) ∧
      ((c.ackFrame level nowMs).length : Int) ≤ writer.room
  · have least : 5 ≤ (c.ackFrame level nowMs).length := length_ackFrame due.1.2 _
    have enough : c.ackFits level nowMs limit start = true := by
      rw [fits]
      refine ⟨due.1, by omega, ?_⟩
      have within := due.2
      omega
    rw [if_pos due, if_pos enough]
    simp only [plain { conn := c.acknowledged level
                       writer := writer.bytes (c.ackFrame level nowMs)
                         (c.ackFrame level nowMs).length } level rfl rfl rfl rfl]
    have payload : (writer.bytes (c.ackFrame level nowMs) (c.ackFrame level nowMs).length).offset
        - (pnOffset + pnLength) = (c.ackFrame level nowMs).length :=
      Nat.add_sub_cancel_left _ _
    have ends : (writer.bytes (c.ackFrame level nowMs) (c.ackFrame level nowMs).length).offset
        + quicAEADTagLength = start + c.ackSize level nowMs := by
      show pnOffset + pnLength + (c.ackFrame level nowMs).length + quicAEADTagLength = _
      omega
    have written : (writer.bytes (c.ackFrame level nowMs) (c.ackFrame level nowMs).length).written =
        c.ackFrame level nowMs := take_length
    rw [payload, if_neg (by omega), ends, written]
    rfl
  · have not : ¬c.ackFits level nowMs limit start = true := by
      rw [fits]
      rintro ⟨owed, -, enough⟩
      exact due ⟨owed, by omega⟩
    rw [if_neg due, if_neg not]
    simp only [plain { conn := c, writer := writer } level rfl rfl rfl rfl]
    rw [if_pos (Nat.sub_self _)]

def acksEnd (c : QUICConnection) (nowMs limit : Nat) : List QUICLevel → Nat → Nat
  | [], start => start
  | level :: rest, start =>
    if c.ackFits level nowMs limit start then
      acksEnd c nowMs limit rest (start + c.ackSize level nowMs)
    else acksEnd c nowMs limit rest start

theorem acknowledged_space (c : QUICConnection) {other : QUICLevel} (apart : other ≠ level) :
    (c.acknowledged level).spaces.get other = c.spaces.get other := PerLevel.get_set_ne _ apart _

theorem acknowledged_acks (c : QUICConnection) {other : QUICLevel} (apart : other ≠ level) (nowMs : Nat) :
    (c.acknowledged level).ackSize other nowMs = c.ackSize other nowMs ∧
      (∀ limit start, (c.acknowledged level).ackFits other nowMs limit start = c.ackFits other nowMs limit start) ∧
      ∀ start, (c.acknowledged level).ackPacket other nowMs start = c.ackPacket other nowMs start := by
  have same := acknowledged_space c apart
  have length : (c.acknowledged level).packetNumberLength other = c.packetNumberLength other := by
    unfold packetNumberLength
    rw [same]
  have header : (c.acknowledged level).nextHeader other = c.nextHeader other := by
    unfold nextHeader
    rw [length]
    rfl
  have frame : (c.acknowledged level).ackFrame other nowMs = c.ackFrame other nowMs := by
    unfold ackFrame ackDelay
    rw [same]
    rfl
  have size : (c.acknowledged level).ackSize other nowMs = c.ackSize other nowMs := by
    unfold ackSize
    rw [header, length, frame]
  refine ⟨size, fun limit start => ?_, fun start => ?_⟩
  · unfold ackFits
    rw [size, same]
    rfl
  · unfold ackPacket
    rw [size, same, header, length, frame]

theorem ackPackets_acknowledged (c : QUICConnection) (level : QUICLevel) (nowMs limit : Nat)
    (levels : List QUICLevel) (start : Nat) (absent : level ∉ levels) :
    (c.acknowledged level).ackPackets nowMs limit levels start = c.ackPackets nowMs limit levels start := by
  induction levels generalizing start with
  | nil => rfl
  | cons other rest ih =>
    rw [mem_cons, not_or] at absent
    obtain ⟨size, fits, packet⟩ := acknowledged_acks c (Ne.symm absent.1) nowMs
    unfold ackPackets
    rw [size, fits, packet, ih _ absent.2, ih _ absent.2]

theorem planPackets_plain {ackOnly : Bool} (plain : c.Plain ackOnly) (limit nowMs : Nat) (levels : List QUICLevel)
    (distinct : levels.Nodup) (start : Nat) :
    (planPackets limit ackOnly nowMs levels c start).2 = c.ackPackets nowMs limit levels start ∧
      (planPackets limit ackOnly nowMs levels c start).1.recovery = c.recovery := by
  induction levels generalizing c start with
  | nil => exact ⟨rfl, rfl⟩
  | cons level rest ih =>
    rw [nodup_cons] at distinct
    have nextPlain : (c.acknowledged level).Plain ackOnly := plain
    rw [planPackets_cons]
    unfold ackPackets
    cases may : c.maySend level with
    | false =>
      have not : c.ackFits level nowMs limit start = false := by simp [ackFits, may]
      simp only [not, Bool.not_false, if_true, Bool.false_eq_true, if_false]
      exact ih plain distinct.2 start
    | true =>
      rw [buildPacket_plain plain may]
      cases fits : c.ackFits level nowMs limit start with
      | false => exact ih plain distinct.2 start
      | true =>
        obtain ⟨packets, recovery⟩ := ih nextPlain distinct.2 (start + c.ackSize level nowMs)
        rw [ackPackets_acknowledged c level nowMs limit rest _ distinct.1] at packets
        exact ⟨congrArg (c.ackPacket level nowMs start :: ·) packets, recovery⟩

theorem layout_plain (plain : c.Plain (!c.recovery.canSend && c.recovery.probeAllowance == 0)) (budget nowMs : Nat) :
    (c.layout budget nowMs).2 = padLast (c.ackPackets nowMs budget [.initial, .handshake, .application] 0) budget ∧
      (c.layout budget nowMs).1.recovery = c.recovery := by
  obtain ⟨packets, recovery⟩ := planPackets_plain plain budget nowMs [.initial, .handshake, .application] (by decide) 0
  exact ⟨congrArg (padLast · budget) packets, recovery⟩

variable {start : Nat}

theorem mem_ackPackets {nowMs limit : Nat} {levels : List QUICLevel} {packet : PlannedPacket}
    (member : packet ∈ c.ackPackets nowMs limit levels start) :
    ∃ from_, c.ackFits packet.level nowMs limit from_ = true ∧ packet = c.ackPacket packet.level nowMs from_ := by
  induction levels generalizing start with
  | nil => cases member
  | cons level rest ih =>
    unfold ackPackets at member
    split_ifs at member with fits
    · rcases mem_cons.mp member with rfl | later
      · exact ⟨start, fits, rfl⟩
      · exact ih later
    · exact ih member

theorem ackPackets_end (c : QUICConnection) (nowMs limit : Nat) (levels : List QUICLevel) (start : Nat) :
    ((c.ackPackets nowMs limit levels start).getLast?.map PlannedPacket.end).getD start =
      c.acksEnd nowMs limit levels start := by
  induction levels generalizing start with
  | nil => rfl
  | cons level rest ih =>
    unfold ackPackets acksEnd
    split_ifs with fits
    · rw [← ih, List.getLast?_cons]
      cases (c.ackPackets nowMs limit rest (start + c.ackSize level nowMs)).getLast? <;> rfl
    · exact ih start

end QUICConnection

/-- The primitives that protect packets do not fail on what they are handed. -/
structure Primitives.Seals (P : Primitives) : Prop where
  aead : ∀ aead nonce header plaintext, (P.aeadSeal aead nonce header plaintext).isSome = true
  mask : ∀ protection sample, sample.length = quicHPSampleLength → (P.hpMask protection sample).isSome = true

theorem Primitives.transparent_seals : Primitives.transparent.Seals := ⟨fun _ _ _ _ => rfl, fun _ _ _ => rfl⟩

namespace QUICProtect

theorem length_writeAt {bytes new : Bytes} (inside : start + new.length ≤ bytes.length) :
    (writeAt bytes start new).length = bytes.length := by
  simp only [writeAt, length_append, length_take, length_drop]
  omega

theorem length_packetNumberBytes (packetNumber pnLength : Nat) :
    (packetNumberBytes packetNumber pnLength).length = pnLength := by
  simp [packetNumberBytes]

theorem seal_isSome {P : Primitives} (seals : P.Seals) {packet : Bytes}
    {pnOffset pnLength payloadLength : Nat} (packetNumber : Nat) {keys : QUICKeys}
    {header : QUICHeaderKey} (keyed : keys.isValid = true) (masked : header.isValid = true)
    (length : packet.length = pnOffset + pnLength + payloadLength)
    (enough : 4 ≤ pnLength + payloadLength) :
    («seal» P packet pnOffset pnLength payloadLength packetNumber keys header).isSome = true := by
  obtain ⟨aead, found⟩ := Option.isSome_iff_exists.mp keyed
  obtain ⟨protection, known⟩ := Option.isSome_iff_exists.mp masked
  simp only [«seal», Option.bind_eq_bind]
  rw [found, Option.bind_some]
  have whole : (writeAt packet pnOffset (packetNumberBytes packetNumber pnLength)).length =
      pnOffset + pnLength + payloadLength := by
    rw [length_writeAt, length]
    rw [length_packetNumberBytes, length]
    omega
  generalize writeAt packet pnOffset (packetNumberBytes packetNumber pnLength) = body at whole
  obtain ⟨ciphertext, encrypted⟩ := Option.isSome_iff_exists.mp (seals.aead aead
    (keys.nonce packetNumber) (body.take (pnOffset + pnLength))
    ((body.drop (pnOffset + pnLength)).take payloadLength))
  have tagged := P.aeadSeal_length _ _ _ _ _ encrypted
  rw [encrypted, Option.bind_some]
  rw [length_take, length_drop, whole] at tagged
  have sample : quicHPSampleLength = 16 := rfl
  rw [if_neg (by omega)]
  have sampled : (((body.take (pnOffset + pnLength) ++ ciphertext).drop (pnOffset + 4)).take
      quicHPSampleLength).length = quicHPSampleLength := by
    rw [length_take, length_drop, length_append, length_take, whole]
    omega
  obtain ⟨mask, made⟩ := Option.isSome_iff_exists.mp (seals.mask protection _ sampled)
  unfold QUICHeaderKey.mask
  simp only [known, Option.bind_eq_bind, Option.bind_some, made]
  rfl

end QUICProtect

namespace QUICConnection

/-- A packet laid out for sealing: its bytes are its header and its payload. -/
structure Formed (packet : PlannedPacket) : Prop where
  number : packet.start ≤ packet.pnOffset
  length : packet.bytes.length = packet.pnOffset - packet.start + packet.pnLength + packet.payloadLength
  sample : 4 ≤ packet.pnLength + packet.payloadLength
  field : packet.level ≠ .application → packet.lengthOffset - packet.start + 2 ≤ packet.bytes.length

variable {c : QUICConnection} {packet : PlannedPacket} {P : Primitives}

theorem sealPacket_isSome (seals : P.Seals) (formed : Formed packet)
    (valid : (c.keys.get packet.level).send.isValid = true) :
    (c.sealPacket P packet).isSome = true := by
  simp only [QUICDirection.isValid, Bool.and_eq_true] at valid
  unfold sealPacket
  extract_lets length bytes send
  apply QUICProtect.seal_isSome seals _ valid.1 valid.2 _ formed.sample
  rw [← formed.length]
  simp only [bytes]
  split_ifs with application
  · rfl
  · exact QUICProtect.length_writeAt (formed.field application)

theorem length_sealPacket_ge {sealed : Bytes} (done : c.sealPacket P packet = some sealed) : 16 ≤ sealed.length := by
  unfold sealPacket at done
  extract_lets length bytes send at done
  exact (QUICProtect.length_seal P done).1

theorem length_headerBytes (c : QUICConnection) (long : level ≠ .application)
    (pnLength : Nat) : 2 ≤ (c.headerBytes level pnLength).length := by
  unfold headerBytes
  rw [if_neg long]
  simp only [length_append, length_cons, length_nil]
  omega

theorem ackPacket_formed {nowMs limit : Nat}
    (fits : c.ackFits level nowMs limit start = true) : Formed (c.ackPacket level nowMs start) := by
  have some : (c.spaces.get level).acks.isEmpty = false := by
    simp only [ackFits, Bool.and_eq_true, Bool.not_eq_true'] at fits
    exact fits.1.1.2
  have least : 5 ≤ (c.ackFrame level nowMs).length := length_ackFrame some _
  have whole : (c.ackPacket level nowMs start).bytes.length =
      (c.nextHeader level).length + c.packetNumberLength level + (c.ackFrame level nowMs).length := by
    simp [ackPacket]
    omega
  refine ⟨Nat.le_add_right _ _, ?_, ?_, fun long => ?_⟩
  · rw [whole]
    show _ = start + (c.nextHeader level).length - start + c.packetNumberLength level + (c.ackFrame level nowMs).length
    omega
  · show 4 ≤ c.packetNumberLength level + (c.ackFrame level nowMs).length
    omega
  · have apart : level ≠ .application := long
    have two := length_headerBytes c apart (c.packetNumberLength level)
    have header : c.nextHeader level = c.headerBytes level (c.packetNumberLength level) := rfl
    rw [whole]
    simp only [ackPacket, if_neg apart]
    omega

theorem Formed.pad (formed : Formed packet) (padding stop : Nat) : Formed { packet with
      payloadLength := packet.payloadLength + padding
      «end» := stop
      padded := true
      bytes := packet.bytes ++ List.replicate padding 0 } := by
  obtain ⟨number, length, sample, field⟩ := formed
  refine ⟨number, ?_, ?_, fun long => ?_⟩
  · rw [length_append, length_replicate, length]
    show _ = packet.pnOffset - packet.start + packet.pnLength + (packet.payloadLength + padding)
    omega
  · show 4 ≤ packet.pnLength + (packet.payloadLength + padding)
    omega
  · rw [length_append]
    exact (field long).trans (Nat.le_add_right _ _)

theorem ackPackets_ready {nowMs limit : Nat} {levels : List QUICLevel}
    (member : packet ∈ c.ackPackets nowMs limit levels start) :
    Formed packet ∧ (c.keys.get packet.level).send.isValid = true := by
  obtain ⟨from_, fits, same⟩ := mem_ackPackets member
  have formed := ackPacket_formed fits
  rw [← same] at formed
  simp only [ackFits, maySend, Bool.and_eq_true] at fits
  exact ⟨formed, fits.1.1.1.1.1⟩

theorem sealable_of_formed (seals : P.Seals) {planned : List PlannedPacket}
    (each : ∀ packet ∈ planned, Formed packet ∧ (c.keys.get packet.level).send.isValid = true) :
    c.sealable P planned = true := by
  unfold sealable
  rw [all_eq_true]
  intro packet member
  exact sealPacket_isSome seals (each packet member).1 (each packet member).2

end QUICConnection

end AvianCore.Quic
