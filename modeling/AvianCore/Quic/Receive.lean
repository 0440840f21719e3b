import AvianCore.Quic.Connection

/-!
The receiving half of a connection: datagrams are split into packets, packets are opened, and
their frames are applied in order. A handler returns the reader after its frame, or nothing
when the rest of the packet is given up.
-/

namespace AvianCore.Quic
open AvianCore.Lib QUICProtect
open QUICStreamKind (isUnidirectional)

namespace QUICConnection

abbrev Handled := QUICConnection × Option QUICReader

def stop (c : QUICConnection) (error : QUICError) : Handled := (c.fail error, none)

/-- Reads the fields of a frame; a frame that cannot be read closes the connection. -/
def decoded {α : Type} (c : QUICConnection) (fields : Option α) (act : α → Handled) : Handled :=
  match fields with
  | none => c.stop .frameEncodingError
  | some value => act value

def guarded (c : QUICConnection) (error : Option QUICError) (act : Handled) : Handled :=
  match error with
  | some error => c.stop error
  | none => act

def readPair (r : QUICReader) : Option (Nat × Nat × QUICReader) := do
  let (first, r) ← r.varint
  let (second, r) ← r.varint
  some (first, second, r)

def readTriple (r : QUICReader) : Option (Nat × Nat × Nat × QUICReader) := do
  let (first, r) ← r.varint
  let (second, r) ← r.varint
  let (third, r) ← r.varint
  some (first, second, third, r)

/-- A limit on streams, which cannot be above the number of identifiers. -/
def readStreamLimit (r : QUICReader) : Option (Nat × QUICReader) := do
  let (limit, r) ← r.varint
  if limit ≤ 2 ^ 60 then some (limit, r) else none

/-- Why a stream identifier is not one the peer may name, if it is not. -/
def streamIDError (c : QUICConnection) (id : Nat) : Option QUICError :=
  if quicVarintMax < id then some .frameEncodingError
  else if QUICStreamKind.isServerInitiated id then
    let next := if isUnidirectional id then c.nextLocalStreamUni
      else c.nextLocalStreamBidi
    if next ≤ QUICStreamKind.index id then some .streamStateError else none
  else
    let limit := if isUnidirectional id then c.localMaxStreamsUni
      else c.localMaxStreamsBidi
    if limit ≤ QUICStreamKind.index id then some .streamLimitError else none

def checkStreamID (c : QUICConnection) (id : Nat) (act : Handled) : Handled := c.guarded (c.streamIDError id) act

def incomingStream (c : QUICConnection) (unidirectional : Bool) : QUICStream :=
  let limit := if unidirectional then c.localParameters.initialMaxStreamDataUni
    else c.localParameters.initialMaxStreamDataBidiRemote
  { receive := { limit := limit, announced := limit }
    send := { limit := if unidirectional then 0
      else c.peerParameters.initialMaxStreamDataBidiLocal } }

/-- Opens `count` client streams from index `i` on; also returns the last one opened. -/
def openIncoming (unidirectional : Bool) :
    Nat → Nat → QUICConnection → Option QUICStream → QUICConnection × Option QUICStream
  | 0, _, c, created => (c, created)
  | count + 1, i, c, _ =>
    let newID := QUICStreamKind.id i false unidirectional
    let stream := c.incomingStream unidirectional
    openIncoming unidirectional count (i + 1)
      { c with streams := c.streams.insert newID stream } (some stream)

def highestIncoming (c : QUICConnection) (unidirectional : Bool) : Highest :=
  if unidirectional then c.highestIncomingUni else c.highestIncomingBidi

def setHighestIncoming (c : QUICConnection) (unidirectional : Bool) (highest : Highest) : QUICConnection :=
  if unidirectional then { c with highestIncomingUni := highest }
  else { c with highestIncomingBidi := highest }

/-- Finds a stream, opening it and every lower-numbered one of its kind. -/
def openOrFind (c : QUICConnection) (id : Nat) : QUICConnection × Option QUICStream :=
  match c.streams.lookup id with
  | some existing => (c, some existing)
  | none =>
    if QUICStreamKind.isServerInitiated id then (c, none)
    else
      let unidirectional := isUnidirectional id
      let index := QUICStreamKind.index id
      let highest := (c.highestIncoming unidirectional).val
      if index ≤ highest then (c, c.streams.lookup id)
      else
        let (c, created) := openIncoming unidirectional (index - highest).toNat (highest + 1).toNat
          c none
        let c := c.setHighestIncoming unidirectional ⟨index, by omega⟩
        (c, (c.streams.lookup id).or created)

/-- Goes on with the stream a frame names; a stream already retired ends the packet. -/
def withStream (c : QUICConnection) (id : Nat) (act : QUICConnection → QUICStream → Handled) : Handled :=
  match c.openOrFind id with
  | (c, none) => (c, none)
  | (c, some stream) => act c stream

def isSendOnly (id : Nat) : Bool := QUICStreamKind.isServerInitiated id && isUnidirectional id

def isReceiveOnly (id : Nat) : Bool := QUICStreamKind.isClientInitiated id && isUnidirectional id

def readStreamFrame (bits : Nat) (r : QUICReader) : Option (Nat × Nat × Bytes × QUICReader) := do
  let (id, r) ← r.varint
  let (offset, r) ← if FrameType.hasBit bits FrameType.streamOffset then r.varint else some (0, r)
  let (length, r) ← if FrameType.hasBit bits FrameType.streamLength then r.varintAsInt
    else some (r.remaining, r)
  let (data, r) ← r.take length
  some (id, offset, data, r)

/-- Counts what a stream grows to `end` against the connection's credit. -/
def countGrowth (c : QUICConnection) (stream : QUICStream) («end» : Nat) : Option QUICConnection :=
  if stream.receive.highWater < «end» then
    let growth := «end» - stream.receive.highWater
    if c.receiveLimit < addWrapping c.receivedBytes growth then none
    else
      let c := c.mark (.credit c.receivedBytes growth)
      some { c with receivedBytes := addWrapping c.receivedBytes growth }
  else some c

def announceData (c : QUICConnection) (id : Nat) (receive : QUICReceiveStream) : QUICConnection :=
  let c := if receive.ready.isEmpty then c else c.append { kind := .streamReadable, streamID := id }
  if receive.finished && !receive.delivered then
    c.append { kind := .streamFinished, streamID := id }
  else c

def acceptStream (c : QUICConnection) (stream : QUICStream) (id offset : Nat) (data : Bytes)
    (fin : Bool) (r : QUICReader) : Handled :=
  match c.countGrowth stream (addWrapping offset data.length) with
  | none => c.stop .flowControlError
  | some c =>
    match stream.receive.accept offset data fin with
    | (.flowControlError, _) => c.stop .flowControlError
    | (.finalSizeError, _) => c.stop .finalSizeError
    | (.ok, receive) =>
      let c := c.modifyStream id fun s => { s with receive := receive }
      (c.announceData id receive, some r)

def handleStream (c : QUICConnection) (bits : Nat) (r : QUICReader) : Handled :=
  c.decoded (readStreamFrame bits r) fun (id, offset, data, r) =>
    c.checkStreamID id <|
      c.guarded (if isSendOnly id then some .streamStateError else none) <|
        c.withStream id fun c stream =>
          c.acceptStream stream id offset data (FrameType.hasBit bits FrameType.streamFin) r

def acceptReset (c : QUICConnection) (stream : QUICStream) (id code finalSize : Nat)
    (r : QUICReader) : Handled :=
  if stream.receive.finalSize.any (· ≠ finalSize) then c.stop .finalSizeError
  else if finalSize < stream.receive.highWater then c.stop .finalSizeError
  else
    match c.countGrowth stream finalSize with
    | none => c.stop .flowControlError
    | some c =>
      let c := c.mark (.resetReceived stream finalSize)
      let c := c.modifyStream id fun s => { s with
        receive := { s.receive with
          highWater := max s.receive.highWater finalSize
          finalSize := some finalSize
          finished := true } }
      (c.append { kind := .streamReset, streamID := id, code := code }, some r)

def handleResetStream (c : QUICConnection) (r : QUICReader) : Handled :=
  c.decoded (readTriple r) fun (id, code, finalSize, r) =>
    c.checkStreamID id <|
      c.guarded (if isSendOnly id then some .streamStateError else none) <|
        c.withStream id fun c stream => c.acceptReset stream id code finalSize r

/-- STOP_SENDING on a stream that exists: the answer is a reset of our own. -/
def acceptStop (c : QUICConnection) (stream : QUICStream) (id code : Nat) (r : QUICReader) : Handled :=
  let c := c.modifyStream id fun s => { s with stopSending := some code }
  let c :=
    if stream.send.resetCode.isNone then
      (c.modifyStream id fun s => { s with send := { s.send with resetCode := some code } })
        |>.markWritable id
    else c
  (c.append { kind := .stopSending, streamID := id, code := code }, some r)

def handleStopSending (c : QUICConnection) (r : QUICReader) : Handled :=
  c.decoded (readPair r) fun (id, code, r) =>
    c.checkStreamID id <|
      c.guarded (if isReceiveOnly id then some .streamStateError else none) <|
        c.withStream id fun c stream => c.acceptStop stream id code r

def handleMaxData (c : QUICConnection) (r : QUICReader) : Handled :=
  c.decoded r.varint fun (limit, r) =>
    let c := c.mark (.maxData limit)
    if c.sendLimit < limit then
      (({ c with sendLimit := limit } : QUICConnection).append { kind := .streamWritable }, some r)
    else (c, some r)

def raiseStreamLimit (c : QUICConnection) (id limit : Nat) : QUICConnection :=
  match c.streams.lookup id with
  | none => c
  | some stream =>
    if stream.send.limit < limit then
      ((c.modifyStream id fun s => { s with send := { s.send with limit := limit } }).markWritable
        id).noteWritable id
    else c

def handleMaxStreamData (c : QUICConnection) (r : QUICReader) : Handled :=
  c.decoded (readPair r) fun (id, limit, r) =>
    c.checkStreamID id <|
      ((c.mark (.maxStreamData id limit)).raiseStreamLimit id limit, some r)

def readNewConnectionID (r : QUICReader) : Option QUICReader := do
  let (sequence, r) ← r.varint
  let (retirePrior, r) ← r.varint
  let (length, r) ← r.byte
  if 1 ≤ length.toNat ∧ length.toNat ≤ quicMaxCIDLength then
    let (_, r) ← r.take length.toNat
    let r ← r.skip 16
    if sequence < retirePrior then none else some r
  else none

def handleNewConnectionID (c : QUICConnection) (r : QUICReader) : Handled :=
  c.decoded (readNewConnectionID r) fun r => (c, some r)

def readDatagram (hasLength : Bool) (r : QUICReader) : Option (Bytes × QUICReader) := do
  let (length, r) ← if hasLength then r.varintAsInt else some (r.remaining, r)
  r.take length

def handleDatagram (c : QUICConnection) (hasLength : Bool) (r : QUICReader) : Handled :=
  c.guarded (if c.localParameters.maxDatagramFrameSize = 0 then some .protocolViolation else none) <|
    c.decoded (readDatagram hasLength r) fun (data, r) =>
      c.guarded (if c.localParameters.maxDatagramFrameSize < data.length then
          some .protocolViolation else none) <|
        (({ c with incomingDatagrams := c.incomingDatagrams ++ [data] } : QUICConnection).append
          { kind := .datagram }, some r)

/-- The error code of a CONNECTION_CLOSE frame, whose reason is skipped. -/
def readConnectionClose (application : Bool) (r : QUICReader) : Option Nat := do
  let (code, r) ← r.varint
  let r ← if application then some r else r.varint.map Prod.snd
  let (reasonLength, r) ← r.varintAsInt
  let _ ← r.skip reasonLength
  some code

def handleConnectionClose (c : QUICConnection) (application : Bool) (nowMs : Nat) (r : QUICReader) :
    Handled :=
  c.decoded (readConnectionClose application r) fun code =>
    let c := c.mark (.peerClose c.status)
    let c := { c with
      closeWasReceived := true
      closeError := code
      closeIsApplication := application
      status := .closing
      closeSentAtMs := nowMs }
    (c.append { kind := .closed, code := code }, none)

def acceptAck (c : QUICConnection) (ranges : List PacketRange) (largest delayRaw : Nat)
    (level : QUICLevel) (nowMs : Nat) : QUICConnection :=
  let exponent := if c.handshakeComplete then c.peerParameters.ackDelayExponent else 3
  let delay := if level = .application then delayRaw * 2 ^ exponent % 2 ^ 64 / 1000 else 0
  let (result, space, recovery) := QUICLossDetection.onAck (c.spaces.get level) c.recovery ranges
    largest delay nowMs
  let c : QUICConnection := { c with
    spaces := c.spaces.set level space
    recovery := recovery
    history := result.acked.map (Mark.acked level) ++ result.lost.map (Mark.lost level)
      ++ c.history }
  let c := result.acked.foldl (fun c packet => c.onPacketAcked packet level) c
  let c := result.lost.foldl (fun c packet => c.onPacketLost packet level) c
  if !result.acked.isEmpty ∧ level = .application ∧ c.handshakeComplete then
    { c with handshakeConfirmed := true, keyUpdatePermitted := true }
  else c

def handleAck (c : QUICConnection) (hasECN : Bool) (level : QUICLevel) (nowMs : Nat)
    (r : QUICReader) : Handled :=
  c.decoded (quicReadAckFrame r hasECN) fun (ranges, delayRaw, r) =>
    let largest := (ranges.head?.map PacketRange.high).getD 0
    -- a peer cannot acknowledge a packet number we have not issued
    c.guarded (if (c.spaces.get level).nextPacketNumber ≤ largest then some .protocolViolation
        else none) <|
      (c.acceptAck ranges largest delayRaw level nowMs, some r)

section
variable (P : Primitives)

def readCrypto (r : QUICReader) : Option (Nat × Bytes × QUICReader) := do
  let (offset, r) ← r.varint
  let (length, r) ← r.varintAsInt
  let (data, r) ← r.take length
  some (offset, data, r)

def feedTLS (c : QUICConnection) (level : QUICLevel) : QUICConnection :=
  let ready := (c.cryptoReceive.get level).ready
  if ready.isEmpty then c
  else { c with
    tls := c.tls.receive P ready level
    cryptoReceive := c.cryptoReceive.modify level fun s => { s with ready := [] } }

def handleCrypto (c : QUICConnection) (level : QUICLevel) (r : QUICReader) : Handled :=
  c.decoded (readCrypto r) fun (offset, data, r) =>
    let before := c.cryptoReceive.get level
    match before.accept offset data false with
    | (.flowControlError, _) => c.stop .cryptoBufferExceeded
    | (.finalSizeError, _) => c.stop .protocolViolation
    | (.ok, stream) =>
      let c := { c with cryptoReceive := c.cryptoReceive.set level stream }
      if before.received < stream.received then
        match (c.feedTLS P level).applyTLSProgress P with
        | (c, false) => (c, none)
        | (c, true) => (c, some r)
      else (c, some r)

def processFrame (c : QUICConnection) (type : FrameType) (level : QUICLevel) (nowMs : Nat)
    (r : QUICReader) : Handled :=
  match type with
  | .padding =>
    -- a run of padding is one frame's worth of work
    (c, some (r.advance (r.rest.takeWhile (· == 0)).length))
  | .ping => (c, some r)
  | .ack => c.handleAck false level nowMs r
  | .ackECN => c.handleAck true level nowMs r
  | .crypto => c.handleCrypto P level r
  | .resetStream => c.handleResetStream r
  | .stopSending => c.handleStopSending r
  | .newToken => c.stop .protocolViolation
  | .stream bits => c.handleStream bits r
  | .maxData => c.handleMaxData r
  | .maxStreamData => c.handleMaxStreamData r
  | .maxStreamsBidi => c.decoded (readStreamLimit r) fun (limit, r) =>
      ({ c with peerMaxStreamsBidi := max c.peerMaxStreamsBidi limit }, some r)
  | .maxStreamsUni => c.decoded (readStreamLimit r) fun (limit, r) =>
      ({ c with peerMaxStreamsUni := max c.peerMaxStreamsUni limit }, some r)
  | .dataBlocked => c.decoded r.varint fun (_, r) => ({ c with maxDataPending := true }, some r)
  | .streamDataBlocked => c.decoded (readPair r) fun (id, _, r) => c.checkStreamID id (c, some r)
  | .streamsBlockedBidi => c.decoded (readStreamLimit r) fun (_, r) =>
      ({ c with maxStreamsBidiPending := true }, some r)
  | .streamsBlockedUni => c.decoded (readStreamLimit r) fun (_, r) =>
      ({ c with maxStreamsUniPending := true }, some r)
  | .newConnectionID => c.handleNewConnectionID r
  | .retireConnectionID => c.decoded r.varint fun (_, r) => (c, some r)
  | .pathChallenge => c.decoded (r.take 8) fun (data, r) =>
      ({ c with pathResponsePending := c.pathResponsePending ++ [data] }, some r)
  | .pathResponse => c.decoded (r.skip 8) fun r => (c, some r)
  | .connectionCloseTransport => c.handleConnectionClose false nowMs r
  | .connectionCloseApplication => c.handleConnectionClose true nowMs r
  | .handshakeDone => c.stop .protocolViolation
  | .datagram => c.handleDatagram false r
  | .datagramWithLength => c.handleDatagram true r

def readFrameType (level : QUICLevel) (r : QUICReader) : Except QUICError (FrameType × Bool × QUICReader) :=
  match r.varint with
  | none => .error .frameEncodingError
  | some (code, r) =>
    if level ≠ .application ∧ !FrameType.allowedDuringHandshake code then .error .protocolViolation
    else
      match FrameType.ofCode code with
      | none => .error .frameEncodingError
      | some type => .ok (type, FrameType.isAckEliciting code, r)

/-- One turn of the loop of `processFrames`. -/
def nextFrame (c : QUICConnection) (level : QUICLevel) (nowMs : Nat) (r : QUICReader) : Handled × Bool :=
  match readFrameType level r with
  | .error error => (c.stop error, false)
  | .ok (type, eliciting, r) => (c.processFrame P type level nowMs r, eliciting)

/-- The loop of `processFrames`. The fuel is more than the payload is long, so it is never used up:
every frame takes at least a byte. -/
def frameLoop (level : QUICLevel) (nowMs : Nat) :
    Nat → QUICConnection → Bool → QUICReader → QUICConnection × Option Bool
  | 0, c, ackEliciting, _ => (c, some ackEliciting)
  | fuel + 1, c, ackEliciting, r =>
    if r.isEmpty then (c, some ackEliciting)
    else
      match c.nextFrame P level nowMs r with
      | ((c, none), _) => (c, none)
      | ((c, some r), eliciting) => frameLoop level nowMs fuel c (ackEliciting || eliciting) r

/-- Whether the packet was ack-eliciting, or nothing if it was given up. -/
def processFrames (c : QUICConnection) (payload : Bytes) (level : QUICLevel) (nowMs : Nat) :
    QUICConnection × Option Bool :=
  frameLoop P level nowMs (payload.length + 1) c false ⟨payload, 0⟩

/-- The 1-RTT path, where the key phase decides which keys open the packet. -/
def openOneRTT (c : QUICConnection) (p : Bytes) (header : QUICPacketHeader) (nowMs : Nat) :
    QUICConnection × Option QUICProtect.Opened :=
  let receive := c.keys.application.receive
  match unprotect P p header.pnOffset header.end c.spaces.application.largestReceived
      receive.header with
  | none => (c, none)
  | some un =>
    if un.keyPhase = c.currentKeyPhase then (c, openBody P un header.end receive.keys)
    else if c.previousReceiveKeys.isValid ∧ nowMs < c.previousKeysExpireMs ∧
        un.packetNumber < c.currentPhaseFirstPacket then
      (c, openBody P un header.end c.previousReceiveKeys)
    else if c.keyUpdatePermitted ∧ c.nextReceiveKeys.isValid then
      match openBody P un header.end c.nextReceiveKeys with
      | some opened => (c.commitKeyUpdate P nowMs opened.packetNumber, some opened)
      | none => (c, none)
    else (c, none)

def openPacket (c : QUICConnection) (p : Bytes) (header : QUICPacketHeader) (level : QUICLevel)
    (nowMs : Nat) : QUICConnection × Option QUICProtect.Opened :=
  if level = .application then c.openOneRTT P p header nowMs
  else
    let receive := (c.keys.get level).receive
    (c, QUICProtect.open P p header.pnOffset header.end (c.spaces.get level).largestReceived
      receive.keys receive.header)

def validateAddress (c : QUICConnection) (level : QUICLevel) : QUICConnection :=
  if level = .handshake ∧ !c.addressValidated then
    ({ c with addressValidated := true } : QUICConnection).discardSpace .initial
  else c

/-- What the space notes about a packet whose frames were all processed. -/
def recordArrival (c : QUICConnection) (level : QUICLevel) (packetNumber : Nat)
    (ackEliciting : Bool) (nowMs : Nat) : QUICConnection :=
  let c :=
    if (c.spaces.get level).largestReceived < packetNumber then
      { c with
        spaces := c.spaces.modify level fun space => { space with
          largestReceived := packetNumber
          largestReceivedAtMs := nowMs }
        acceptedNewPacket := true }
    else c
  let c := c.mark (.ackAdded level (c.spaces.get level).acks packetNumber)
  { c with
    spaces := c.spaces.modify level fun space =>
      let space := { space with acks := space.acks.add packetNumber, ackPending := true }
      if ackEliciting then
        { space with
          ackElicitingPending := true
          ackDeadlineMs := if space.ackDeadlineMs = 0 then
            nowMs + (if level = .application then 25 else 1) else space.ackDeadlineMs }
      else space }

def processPayload (c : QUICConnection) (level : QUICLevel) (packet : QUICProtect.Opened)
    (nowMs : Nat) : QUICConnection :=
  let c := c.mark (.frames level packet.packetNumber)
  match c.processFrames P packet.payload level nowMs with
  | (c, none) => c.mark (.cutShort level packet.packetNumber)
  | (c, some ackEliciting) => c.recordArrival level packet.packetNumber ackEliciting nowMs

def acceptPacket (c : QUICConnection) (level : QUICLevel) (packet : QUICProtect.Opened)
    (nowMs : Nat) : QUICConnection :=
  let c := c.validateAddress level
  if (c.spaces.get level).acks.contains packet.packetNumber then c
  else c.processPayload P level packet nowMs

def receivePacket (c : QUICConnection) (p : Bytes) (header : QUICPacketHeader) (level : QUICLevel)
    (nowMs : Nat) : QUICConnection × Bool :=
  if header.isLong ∧ header.version ≠ c.version then (c, false)
  else if !(c.keys.get level).receive.isValid then (c, false)
  else
    match c.openPacket P p header level nowMs with
    | (c, none) => (c, false)
    | (c, some packet) => (c.acceptPacket P level packet nowMs, true)

def packetLevel : QUICPacketType → Option QUICLevel
  | .initial => some .initial
  | .handshake => some .handshake
  | .oneRTT => some .application
  | _ => none

def receiveOne (c : QUICConnection) (p : Bytes) (header : QUICPacketHeader) (nowMs : Nat) : QUICConnection :=
  match packetLevel header.type with
  | none => c
  | some level =>
    match c.receivePacket P p header level nowMs with
    | (c, true) => { c with lastActivityMs := nowMs }
    | (c, false) => c

/-- The packets of a datagram, first to last. A packet is not empty, so the length of the
datagram is fuel enough. -/
def packetLoop (nowMs : Nat) : Nat → QUICConnection → Bytes → QUICConnection
  | 0, c, _ => c
  | fuel + 1, c, p =>
    if p.isEmpty then c
    else
      let header := QUICPacket.parseHeader p c.localCID.length
      if !header.isValid then c
      else
        let c := c.receiveOne P p header nowMs
        if header.end = 0 then c else packetLoop nowMs fuel c (p.drop header.end)

def receive (c : QUICConnection) (datagram : Bytes) (nowMs : Nat) : QUICConnection :=
  let c := { c with acceptedNewPacket := false }
  if c.status = .drained then c
  else
    packetLoop P nowMs datagram.length { c with bytesReceived := c.bytesReceived + datagram.length }
      datagram

end
end QUICConnection
end AvianCore.Quic
