import AvianCore.Quic.Connection

/-!
The sending half of a connection. A datagram is laid out packet by packet, padded, and then
sealed. The region a packet is laid out in is kept as the bytes written so far, with the
offsets the source computes beside them.
-/

namespace AvianCore.Quic
open AvianCore.Lib

/-- Writes frames into a region; `written` is what it has put there. -/
structure QUICFrameWriter where
  written : Bytes := []
  offset : Nat
  limit : Nat
  deriving DecidableEq, Repr

namespace QUICFrameWriter

def room (writer : QUICFrameWriter) : Int := (writer.limit : Int) - writer.offset

def varint (writer : QUICFrameWriter) (value : Nat) : QUICFrameWriter :=
  { writer with
    written := writer.written ++ quicWriteVarint value
    offset := writer.offset + quicVarintLength value }

def bytes (writer : QUICFrameWriter) (p : Bytes) (n : Nat) : QUICFrameWriter :=
  { writer with written := writer.written ++ p.take n, offset := writer.offset + n }

def type (writer : QUICFrameWriter) (type : FrameType) : QUICFrameWriter := writer.varint type.code

end QUICFrameWriter

/-- A packet being filled: the connection, the writer and what the frames so far are. -/
structure Draft where
  conn : QUICConnection
  writer : QUICFrameWriter
  frames : QUICSentFrames := {}
  ackEliciting : Bool := false

/-- A stream's turn at a packet being filled. -/
structure Turn where
  draft : Draft
  stream : QUICStream

namespace Turn

def room (turn : Turn) : Int := turn.draft.writer.room

def writeStopSending (turn : Turn) (id : Nat) : Turn :=
  match turn.stream.stopSendingQueued with
  | none => turn
  | some code =>
    if turn.stream.stopSendingSent then turn
    else if turn.room < 1 + quicVarintLength id + quicVarintLength code then turn
    else {
      stream := { turn.stream with stopSendingSent := true }
      draft := { turn.draft with
        writer := ((turn.draft.writer.type .stopSending).varint id).varint code
        frames := { turn.draft.frames with stopSending := turn.draft.frames.stopSending ++ [id] }
        ackEliciting := true } }

def writeReset (turn : Turn) (id code : Nat) : Turn :=
  let final := turn.stream.send.written
  if turn.room < 1 + quicVarintLength id + quicVarintLength code + quicVarintLength final then turn
  else {
    stream := { turn.stream with send := { turn.stream.send with resetSent := true } }
    draft := { turn.draft with
      conn := turn.draft.conn.mark (.resetWritten id turn.stream final)
      writer := (((turn.draft.writer.type .resetStream).varint id).varint code).varint final
      frames := { turn.draft.frames with resetStream := turn.draft.frames.resetStream ++ [id] }
      ackEliciting := true } }

def writeMaxStreamData (turn : Turn) (id : Nat) : Turn :=
  let limit := turn.stream.receive.limit
  if limit ≤ turn.stream.receive.announced then turn
  else if turn.room < 1 + quicVarintLength id + quicVarintLength limit then turn
  else {
    stream := { turn.stream with receive := { turn.stream.receive with announced := limit } }
    draft := { turn.draft with
      writer := ((turn.draft.writer.type .maxStreamData).varint id).varint limit
      frames := { turn.draft.frames with maxStreamData := turn.draft.frames.maxStreamData ++ [id] }
      ackEliciting := true } }

/-- The stretch of a stream that is next to be sent. -/
structure Stretch where
  offset : Nat
  available : Nat
  isRetransmit : Bool

def nextStretch (send : QUICSendStream) : Stretch :=
  match send.lost.ranges with
  | range :: _ => ⟨range.low, range.high - range.low, true⟩
  | [] => ⟨send.sent, send.written - send.sent, false⟩

/-- How much of the stretch may be sent, if a frame may be sent at all. Flow control applies
to new bytes only. -/
def allowed (send : QUICSendStream) (connectionRoom : Nat) (stretch : Stretch) : Option Nat :=
  let finPending := send.finQueued && !send.finSent
  let atEnd := stretch.offset == send.written
  if stretch.available = 0 ∧ (stretch.isRetransmit || !finPending || !atEnd) then none
  else if stretch.isRetransmit then some stretch.available
  else
    let available := min stretch.available (min send.window connectionRoom)
    if available = 0 ∧ !(finPending && atEnd) then none else some available

def writeStreamHeader (writer : QUICFrameWriter) (id offset length : Nat) (fin : Bool) : QUICFrameWriter :=
  let bits := FrameType.streamLength + (if 0 < offset then FrameType.streamOffset else 0)
    + (if fin then FrameType.streamFin else 0)
  let writer := (writer.type (.stream bits)).varint id
  let writer := if 0 < offset then writer.varint offset else writer
  writer.varint length

/-- Notes that a frame carries `length` bytes from `offset` on. -/
def recordStream (turn : Turn) (id offset length : Nat) (fin isRetransmit : Bool) : Turn :=
  let send := turn.stream.send
  let conn := turn.draft.conn
  { stream := { turn.stream with send := { send with
      lost := if isRetransmit then send.lost.subtract offset (offset + length) else send.lost
      sent := max send.sent (offset + length)
      finSent := send.finSent || fin } }
    draft := { turn.draft with
      conn := if isRetransmit then conn
        else { conn with sentBytes := addWrapping conn.sentBytes length }
      frames := { turn.draft.frames with
        streams := turn.draft.frames.streams ++ [⟨id, offset, offset + length, fin⟩] }
      ackEliciting := true } }

def writeOneStream (turn : Turn) (id : Nat) : Turn × Bool :=
  let send := turn.stream.send
  let stretch := nextStretch send
  match allowed send (turn.draft.conn.sendLimit - turn.draft.conn.sentBytes) stretch with
  | none => (turn, false)
  | some available =>
    let offset := stretch.offset
    let overhead := 1 + quicVarintLength id + quicVarintLength offset + 2
    if turn.room ≤ overhead then (turn, false)
    else
      let length := min available (turn.room - overhead).toNat
      let fin := !stretch.isRetransmit && (send.finQueued && !send.finSent)
        && addWrapping offset length == send.written
      let writer := writeStreamHeader turn.draft.writer id offset length fin
      if length = 0 then
        (({ turn with draft := { turn.draft with writer := writer } } : Turn).recordStream
          id offset length fin stretch.isRetransmit, true)
      else
        match send.slice offset length with
        | none => ({ turn with draft := { turn.draft with writer := writer } }, false)
        | some data =>
          (({ turn with draft := { turn.draft with
              writer := writer.bytes data length } } : Turn).recordStream
            id offset length fin stretch.isRetransmit, true)

/-- The stream is an object of the connection, so what the turn did to it is done there. -/
def commit (turn : Turn) (id : Nat) : Draft :=
  { turn.draft with conn := turn.draft.conn.modifyStream id fun _ => turn.stream }

end Turn

def QUICSendStream.owes (send : QUICSendStream) : Bool :=
  0 < send.pending || !send.lost.isEmpty || (send.finQueued && !send.finSent)

/-- The delay an ACK frame reports, or `none` where its product traps: the process ends there, and what follows in the
model has no counterpart. -/
def QUICConnection.ackDelay (c : QUICConnection) (level : QUICLevel) (nowMs : Nat) : Option Nat :=
  let product := subWrapping nowMs (c.spaces.get level).largestReceivedAtMs * 1000
  if level ≠ .application then some 0
  else if product < 2 ^ 64 then some (product >>> c.localParameters.ackDelayExponent)
  else none

namespace Draft

def unmark (d : Draft) (id : Nat) : Draft :=
  { d with conn := { d.conn with writableSet := d.conn.writableSet.erase id } }

/-- Round-robin over the writable streams. The result is the draft, the identifiers that were not
reached, and the ones that go to the back. -/
def streamWalk : List Nat → Draft → List Nat → Draft × List Nat × List Nat
  | [], d, deferred => (d, [], deferred)
  | id :: rest, d, deferred =>
    if d.writer.room ≤ 8 then (d, id :: rest, deferred)
    else
      match d.conn.streams.lookup id with
      | none => streamWalk rest (d.unmark id) deferred
      | some stream =>
        let d := { d with conn := d.conn.mark (.turn id stream d.writer.room) }
        let turn := (⟨d, stream⟩ : Turn).writeStopSending id
        match (if stream.send.resetSent then none else stream.send.resetCode) with
        | some code =>
          -- a reset stream sends no more data
          streamWalk rest (((turn.writeReset id code).commit id).unmark id) deferred
        | none =>
          let (turn, wrote) := (turn.writeMaxStreamData id).writeOneStream id
          let d := turn.commit id
          if turn.stream.send.owes then
            if d.writer.room ≤ 8 then (d, rest, deferred ++ [id])
            else streamWalk rest d (deferred ++ [id])
          else
            let d := d.unmark id
            if wrote ∧ d.writer.room ≤ 8 then (d, rest, deferred)
            else streamWalk rest d deferred

def writeStreamFrames (d : Draft) : Draft :=
  match streamWalk d.conn.writable d [] with
  | (d, unreached, deferred) =>
    { d with conn := { d.conn with
        writable := unreached.filter (· ∈ d.conn.writableSet) ++ deferred } }

def writeHandshakeDone (d : Draft) : Draft :=
  if d.conn.handshakeDonePending ∧ 1 ≤ d.writer.room then
    { conn := { d.conn with handshakeDonePending := false }
      writer := d.writer.type .handshakeDone
      frames := { d.frames with handshakeDone := true }
      ackEliciting := true }
  else d

def writePathResponses : List Bytes → Draft → Draft
  | [], d => d
  | response :: rest, d =>
    if 9 ≤ d.writer.room then
      writePathResponses rest {
        conn := { d.conn with pathResponsePending := rest }
        writer := (d.writer.type .pathResponse).bytes response 8
        frames := { d.frames with pathResponse := some response }
        ackEliciting := true }
    else d

def writeLimit (d : Draft) (pending : Bool) (type : FrameType) (limit : Nat)
    (done : QUICConnection → QUICConnection) (note : QUICSentFrames → QUICSentFrames) : Draft :=
  if pending ∧ 1 + quicVarintLength limit ≤ d.writer.room then
    { conn := done d.conn
      writer := (d.writer.type type).varint limit
      frames := note d.frames
      ackEliciting := true }
  else d

def writeMaxData (d : Draft) : Draft :=
  d.writeLimit d.conn.maxDataPending .maxData d.conn.receiveLimit
    (fun c => { c with maxDataPending := false }) (fun f => { f with maxData := true })

def writeMaxStreamsBidi (d : Draft) : Draft :=
  d.writeLimit d.conn.maxStreamsBidiPending .maxStreamsBidi d.conn.localMaxStreamsBidi
    (fun c => { c with maxStreamsBidiPending := false })
    (fun f => { f with maxStreamsBidi := true })

def writeMaxStreamsUni (d : Draft) : Draft :=
  d.writeLimit d.conn.maxStreamsUniPending .maxStreamsUni d.conn.localMaxStreamsUni
    (fun c => { c with maxStreamsUniPending := false })
    (fun f => { f with maxStreamsUni := true })

def writeDatagrams : List Bytes → Draft → Draft
  | [], d => d
  | payload :: rest, d =>
    if d.writer.room < 1 + quicVarintLength payload.length + payload.length then d
    else
      writeDatagrams rest { d with
        conn := { d.conn with outgoingDatagrams := rest }
        writer := ((d.writer.type .datagramWithLength).varint payload.length).bytes payload
          payload.length
        ackEliciting := true }

def writeApplicationFrames (d : Draft) : Draft :=
  let d := d.writeHandshakeDone
  let d := writePathResponses d.conn.pathResponsePending d
  let d := d.writeMaxData
  let d := d.writeMaxStreamsBidi
  let d := d.writeMaxStreamsUni
  let d := writeDatagrams d.conn.outgoingDatagrams d
  d.writeStreamFrames

/-- The next handshake bytes of a level, what was lost before what is new. -/
def cryptoStretch (stream : QUICSendStream) : ByteRange :=
  match stream.lost.ranges with
  | range :: _ => range
  | [] => ⟨stream.sent, max stream.sent stream.written⟩

def writeCrypto (d : Draft) (level : QUICLevel) : Draft :=
  let stream := d.conn.cryptoSend.get level
  let stretch := cryptoStretch stream
  let offset := stretch.low
  let length := stretch.high - stretch.low
  let overhead := 1 + quicVarintLength offset + 4
  if length = 0 then d
  else if d.writer.room ≤ overhead then d
  else
    let length := min length (d.writer.room - overhead).toNat
    match stream.slice offset length with
    | none => d
    | some data =>
      { conn := { d.conn with
          cryptoSend := d.conn.cryptoSend.set level { stream with
            lost := if stream.lost.isEmpty then stream.lost
              else stream.lost.subtract offset (offset + length)
            sent := max stream.sent (offset + length) } }
        writer := (((d.writer.type .crypto).varint offset).varint length).bytes data length
        frames := { d.frames with crypto := some ⟨offset, offset + length⟩ }
        ackEliciting := true }

def writePing (d : Draft) : Draft :=
  if d.conn.pingPending ∧ 1 ≤ d.writer.room then
    { conn := { d.conn with pingPending := false }
      writer := d.writer.type .ping
      frames := { d.frames with ping := true }
      ackEliciting := true }
  else d

/-- The ACK frame of a level, and the largest packet number it covers. -/
def writeAck (d : Draft) (level : QUICLevel) (nowMs : Nat) : Draft × Option Nat :=
  let space := d.conn.spaces.get level
  if space.ackPending ∧ !space.acks.isEmpty then
    let scratch := writeAckFrame space.acks ((d.conn.ackDelay level nowMs).getD 0)
    if (scratch.length : Int) ≤ d.writer.room then
      ({ d with
        conn := { d.conn with
          spaces := d.conn.spaces.set level { space with
            ackPending := false
            ackElicitingPending := false
            ackDeadlineMs := 0 } }
        writer := d.writer.bytes scratch scratch.length }, space.acks.largest)
    else (d, none)
  else (d, none)

def fill (d : Draft) (level : QUICLevel) (ackOnly : Bool) : Draft :=
  if ackOnly then d
  else
    let d := if level = .application then d.writeApplicationFrames else d
    (d.writeCrypto level).writePing

end Draft

/-- A packet laid out but not sealed. `bytes` holds it in the clear, from its first byte. -/
structure PlannedPacket where
  level : QUICLevel
  start : Nat
  lengthOffset : Nat
  pnOffset : Nat
  pnLength : Nat
  payloadLength : Nat
  «end» : Nat
  packetNumber : Nat
  ackEliciting : Bool
  padded : Bool := false
  largestAcked : Option Nat
  frames : QUICSentFrames
  bytes : Bytes
  deriving DecidableEq, Repr

/-- What `nextDatagram` leaves in the buffer, and the count it returns. -/
structure Datagram where
  count : Nat := 0
  bytes : Bytes := []
  deriving DecidableEq, Repr

namespace QUICConnection

def packetNumberLength (c : QUICConnection) (level : QUICLevel) : Nat :=
  quicPacketNumberLength (c.spaces.get level).nextPacketNumber
    (c.spaces.get level).largestAckedPacket

/-- The header up to the packet number. The length of a long header is filled in later. -/
def headerBytes (c : QUICConnection) (level : QUICLevel) (pnLength : Nat) : Bytes :=
  if level = .application then
    let phase : UInt8 := if c.currentKeyPhase then 0x04 else 0x00
    let first : UInt8 := 0x40 ||| phase ||| UInt8.ofNat (pnLength - 1)
    first :: c.peerCID.bytes
  else
    let typeBits : UInt8 :=
      if c.version = QUICVersion.v2 then (if level = .initial then 1 else 3)
      else (if level = .initial then 0 else 2)
    let first : UInt8 := 0xC0 ||| (typeBits <<< (4 : UInt8)) ||| UInt8.ofNat (pnLength - 1)
    first :: quicWriteUInt32BE c.version
      ++ UInt8.ofNat c.peerCID.length :: c.peerCID.bytes
      ++ UInt8.ofNat c.localCID.length :: c.localCID.bytes
      ++ (if level = .initial then [0] else [])
      ++ [0x40, 0]

def buildPacket (c : QUICConnection) (level : QUICLevel) (start limit : Nat) (ackOnly : Bool)
    (nowMs : Nat) : QUICConnection × Option PlannedPacket :=
  let bodyLimit := limit - quicAEADTagLength
  if bodyLimit < start + 32 then (c, none)
  else
    let pnLength := c.packetNumberLength level
    let header := c.headerBytes level pnLength
    let pnOffset := start + header.length
    if bodyLimit ≤ pnOffset + pnLength then (c, none)
    else
      let writer : QUICFrameWriter := { offset := pnOffset + pnLength, limit := bodyLimit }
      let (d, largestAcked) := Draft.writeAck { conn := c, writer := writer } level nowMs
      let d := d.fill level ackOnly
      let payloadLength := d.writer.offset - (pnOffset + pnLength)
      if payloadLength = 0 then (d.conn, none)
      else (d.conn, some {
        level := level
        start := start
        lengthOffset := if level = .application then 0 else pnOffset - 2
        pnOffset := pnOffset
        pnLength := pnLength
        payloadLength := payloadLength
        «end» := d.writer.offset + quicAEADTagLength
        packetNumber := (c.spaces.get level).nextPacketNumber
        ackEliciting := d.ackEliciting
        largestAcked := largestAcked
        frames := d.frames
        bytes := header ++ List.replicate pnLength 0 ++ d.writer.written })

def maySend (c : QUICConnection) (level : QUICLevel) : Bool :=
  (c.keys.get level).send.isValid && (level != .application || c.handshakeComplete)

/-- One packet per level; a level that has nothing to say is passed over. -/
def planPackets (limit : Nat) (ackOnly : Bool) (nowMs : Nat) :
    List QUICLevel → QUICConnection → Nat → QUICConnection × List PlannedPacket
  | [], c, _ => (c, [])
  | level :: rest, c, offset =>
    if !c.maySend level then planPackets limit ackOnly nowMs rest c offset
    else
      match c.buildPacket level offset limit ackOnly nowMs with
      | (c, none) => planPackets limit ackOnly nowMs rest c offset
      | (c, some packet) =>
        let (c, planned) := planPackets limit ackOnly nowMs rest c packet.end
        (c, packet :: planned)

theorem planPackets_cons (limit : Nat) (ackOnly : Bool) (nowMs : Nat) (level : QUICLevel)
    (rest : List QUICLevel) (c : QUICConnection) (offset : Nat) :
    planPackets limit ackOnly nowMs (level :: rest) c offset =
      if !c.maySend level then planPackets limit ackOnly nowMs rest c offset
      else
        match c.buildPacket level offset limit ackOnly nowMs with
        | (c, none) => planPackets limit ackOnly nowMs rest c offset
        | (c, some packet) =>
          let (c, planned) := planPackets limit ackOnly nowMs rest c packet.end
          (c, packet :: planned) := by
  rfl

/-- Pads the last packet, so that a datagram with an Initial packet reaches its minimum size and
every packet has enough ciphertext for a header protection sample. -/
def padLast (planned : List PlannedPacket) (budget : Nat) : List PlannedPacket :=
  match planned.getLast? with
  | none => planned
  | some last =>
    let carriesInitial := planned.any fun packet => packet.level == .initial
    let target := if carriesInitial then min QUICPacket.minimumInitialSize budget else 0
    let minimumPayload := 4 - last.pnLength
    let padding := minimumPayload - last.payloadLength
    let padding := if last.end + padding < target then target - last.end else padding
    if 0 < padding ∧ last.end + padding ≤ budget then
      planned.dropLast ++ [{ last with
        payloadLength := last.payloadLength + padding
        «end» := last.end + padding
        padded := true
        bytes := last.bytes ++ List.replicate padding 0 }]
    else planned

section
variable (P : Primitives)

def sealPacket (c : QUICConnection) (packet : PlannedPacket) : Option Bytes :=
  let length := packet.pnLength + packet.payloadLength + quicAEADTagLength
  let bytes := if packet.level = .application then packet.bytes
    else QUICProtect.writeAt packet.bytes (packet.lengthOffset - packet.start)
      (quicWriteVarintWidth length 2)
  let send := (c.keys.get packet.level).send
  QUICProtect.seal P bytes (packet.pnOffset - packet.start) packet.pnLength packet.payloadLength
    packet.packetNumber send.keys send.header

def recordSent (c : QUICConnection) (packet : PlannedPacket) (size nowMs : Nat) : QUICConnection :=
  let sent : QUICSentPacket := {
    packetNumber := packet.packetNumber
    sentAtMs := nowMs
    size := size
    ackEliciting := packet.ackEliciting
    inFlight := packet.ackEliciting || packet.padded
    frames := packet.frames
    largestAcked := packet.largestAcked }
  let c := c.mark (.sent packet.level sent)
  { c with
    spaces := c.spaces.modify packet.level fun space => space.record sent
    recovery := c.recovery.onPacketSent sent }

/-- Seals the packets in order and notes each as sent; nothing if one cannot be sealed. -/
def sealAll (nowMs : Nat) :
    List PlannedPacket → QUICConnection → Datagram → QUICConnection × Option Datagram
  | [], c, out => (c, some out)
  | packet :: rest, c, out =>
    match c.sealPacket P packet with
    | none => (c, none)
    | some sealed =>
      sealAll nowMs rest (c.recordSent packet sealed.length nowMs)
        ⟨packet.start + sealed.length, out.bytes ++ sealed⟩

def buildDatagram (c : QUICConnection) (budget nowMs : Nat) : QUICConnection × Datagram :=
  let windowFull := !c.recovery.canSend
  let ackOnly := windowFull && c.recovery.probeAllowance == 0
  match planPackets budget ackOnly nowMs [.initial, .handshake, .application] c 0 with
  | (c, []) => (c, {})
  | (c, planned) =>
    let planned := padLast planned budget
    match sealAll P nowMs planned c {} with
    | (c, none) => (c, {})
    | (c, some out) =>
      let spent := windowFull && !ackOnly && planned.any PlannedPacket.ackEliciting
      ({ c with
        recovery := if spent then { c.recovery with probeAllowance := c.recovery.probeAllowance - 1 }
          else c.recovery
        bytesSent := c.bytesSent + out.count }, out)

def closeLevel (c : QUICConnection) : QUICLevel :=
  if !c.keys.application.send.isValid || !c.handshakeComplete then
    if c.keys.handshake.send.isValid then .handshake else .initial
  else .application

/-- The CONNECTION_CLOSE frame. An application error cannot be named before the handshake
is done. -/
def writeClose (c : QUICConnection) (level : QUICLevel) (writer : QUICFrameWriter) : QUICFrameWriter :=
  let useApplication := c.closeIsApplication && level == .application
  let writer := writer.type (if useApplication then .connectionCloseApplication
    else .connectionCloseTransport)
  let writer := writer.varint (if c.closeIsApplication && !useApplication then
    QUICError.applicationError.rawValue else c.closeError)
  let writer := if useApplication then writer else writer.varint 0
  let reasonLength := min c.closeReason.length (max 0 (writer.room - 8)).toNat
  (writer.varint reasonLength).bytes c.closeReason reasonLength

def buildCloseFrame (c : QUICConnection) (level : QUICLevel) (limit : Nat) : Option PlannedPacket :=
  let pnLength := 1
  let header := c.headerBytes level pnLength
  let pnOffset := header.length
  let writer : QUICFrameWriter := { offset := pnOffset + pnLength, limit := limit - quicAEADTagLength }
  if writer.room < 16 then none
  else
    let writer := c.writeClose level writer
    let payloadLength := writer.offset - (pnOffset + pnLength)
    -- enough ciphertext for a header protection sample
    let padding := 4 - pnLength - payloadLength
    some {
      level := level
      start := 0
      lengthOffset := if level = .application then 0 else pnOffset - 2
      pnOffset := pnOffset
      pnLength := pnLength
      payloadLength := payloadLength + padding
      «end» := writer.offset + padding
      packetNumber := (c.spaces.get level).nextPacketNumber
      ackEliciting := false
      largestAcked := none
      frames := {}
      bytes := header ++ List.replicate pnLength 0 ++ writer.written ++ List.replicate padding 0 }

/-- Whether a close is due: at once, and then at most a few times, spaced out. -/
def closeDue (c : QUICConnection) (nowMs : Nat) : Bool :=
  !c.closeWasReceived && (c.closeFramePending ||
    (decide (c.closeSendCount < 3) && decide (c.closeSentAtMs + c.recovery.ptoMs true ≤ nowMs)))

def buildClose (c : QUICConnection) (budget nowMs : Nat) : QUICConnection × Datagram :=
  let level := c.closeLevel
  if !c.closeDue nowMs || !(c.keys.get level).send.isValid then (c, {})
  else
    match c.buildCloseFrame level budget with
    | none => (c, {})
    | some packet =>
      match c.sealPacket P packet with
      | none => (c, {})
      | some sealed =>
        ({ c with
          spaces := c.spaces.modify level fun space =>
            { space with nextPacketNumber := space.nextPacketNumber + 1 }
          closeFramePending := false
          closeSentAtMs := nowMs
          closeSendCount := c.closeSendCount + 1
          bytesSent := c.bytesSent + sealed.length }, ⟨sealed.length, sealed⟩)

/-- How many bytes the next datagram may have. Before the peer's address is validated that is
at most three times what it sent. -/
def sendBudget (c : QUICConnection) (capacity : Nat) : Nat :=
  let budget := min capacity c.recovery.maxDatagramSize
  if c.addressValidated then budget else min budget (3 * c.bytesReceived - c.bytesSent)

/-- Fills the next datagram, or leaves it empty if there is nothing to send. -/
def nextDatagram (c : QUICConnection) (capacity nowMs : Nat) : QUICConnection × Datagram :=
  if c.status = .drained then (c, {})
  else
    let budget := c.sendBudget capacity
    if budget < 64 then (c, {})
    else if c.status = .closing then c.buildClose P budget nowMs
    else c.buildDatagram P budget nowMs

end
end QUICConnection
end AvianCore.Quic
