import AvianCore.Lib.Table
import AvianCore.Quic.Loss
import AvianCore.Quic.Tls13

/-!
The state of a server connection, grouped as the source groups it, and the operations that
frames, timers and the application share.
-/

namespace AvianCore.Quic
open AvianCore.Lib QUICStreamKind
open PerLevel (repeating)

structure QUICServerConfig where
  certKeys : List Nat := [0]
  alpn : List Bytes := []
  maxIdleTimeoutMs : Nat := 30000
  initialMaxData : Nat := 2 ^ 20
  initialMaxStreamData : Nat := 256 * 1024
  initialMaxStreamsBidi : Nat := 128
  initialMaxStreamsUni : Nat := 128
  maxDatagramFrameSize : Nat := 1200
  deriving DecidableEq, Repr

inductive QUICEventKind where
  | handshakeComplete | streamReadable | streamFinished | streamReset | stopSending
  | streamWritable | datagram | closed
  deriving DecidableEq, Repr

structure QUICEvent where
  kind : QUICEventKind
  streamID : Nat := 0
  code : Nat := 0
  deriving DecidableEq, Repr

inductive Status where
  | handshaking | connected | closing | drained
  deriving DecidableEq, Repr

/-- The guard that `close` and its callers use: a close has begun, or is over. -/
def Status.isClosing (status : Status) : Bool := status == .closing || status == .drained

/-- One entry of the history: an input as it was met, with the state it was met in. -/
inductive Mark where
  /-- The payload of a packet was handed to `processFrames`. -/
  | frames (level : QUICLevel) (packetNumber : Nat)
  /-- `processFrames` stopped before the end of the payload. -/
  | cutShort (level : QUICLevel) (packetNumber : Nat)
  /-- A packet number was added to the ack ranges. -/
  | ackAdded (level : QUICLevel) (before : QUICAckRanges) (packetNumber : Nat)
  /-- A packet was sent, and later found to be acknowledged or lost. -/
  | sent (level : QUICLevel) (packet : QUICSentPacket)
  | acked (level : QUICLevel) (packet : QUICSentPacket)
  | lost (level : QUICLevel) (packet : QUICSentPacket)
  /-- A CONNECTION_CLOSE frame was read. -/
  | peerClose (before : Status)
  /-- The handshake completed. -/
  | completed (before : Status)
  /-- The peer used more connection credit. -/
  | credit (receivedBytes growth : Nat)
  /-- A RESET_STREAM frame was accepted on a stream. -/
  | resetReceived (stream : QUICStream) (finalSize : Nat)
  /-- A MAX_DATA or MAX_STREAM_DATA frame was read. -/
  | maxData (limit : Nat)
  | maxStreamData (id limit : Nat)
  /-- A stream's turn to send came, with so much room left in the packet. -/
  | turn (id : Nat) (stream : QUICStream) (room : Int)
  /-- A RESET_STREAM frame with this final size was written for a stream. -/
  | resetWritten (id : Nat) (stream : QUICStream) (finalSize : Nat)
  /-- A stream was forgotten. -/
  | retired (id : Nat) (stream : QUICStream)
  /-- The keys of a level were dropped, with its space as it was. -/
  | discarded (level : QUICLevel) (before : QUICPacketSpace)

structure Identity where
  version : Nat
  localCID : QUICConnectionID
  peerCID : QUICConnectionID
  originalDCID : QUICConnectionID
  config : QUICServerConfig

structure CryptoState where
  keys : PerLevel QUICKeyPair := repeating {}
  nextReceiveKeys : QUICKeys := {}
  previousReceiveKeys : QUICKeys := {}
  previousKeysExpireMs : Nat := 0
  currentKeyPhase : Bool := false
  keyUpdatePermitted : Bool := false
  currentPhaseFirstPacket : Nat := 0
  tls : TLSServerHandshake
  handshakeComplete : Bool := false
  handshakeConfirmed : Bool := false
  selectedALPN : Bytes := []
  serverName : Bytes := []

structure SpaceState where
  spaces : PerLevel QUICPacketSpace := repeating {}
  recovery : QUICRecovery := {}
  cryptoReceive : PerLevel QUICReceiveStream := repeating {}
  cryptoSend : PerLevel QUICSendStream := repeating {}

/-- The highest index of a kind that the client has used, or -1. -/
abbrev Highest := { highest : Int // -1 ≤ highest }

/-- Streams and flow control. -/
structure Flow where
  streams : Table Nat QUICStream := ∅
  localParameters : QUICTransportParameters := {}
  peerParameters : QUICTransportParameters := {}
  receiveLimit : Nat := 0
  receivedBytes : Nat := 0
  sendLimit : Nat := 0
  sentBytes : Nat := 0
  nextLocalStreamUni : Nat := 0
  nextLocalStreamBidi : Nat := 0
  highestIncomingBidi : Highest := ⟨-1, le_rfl⟩
  highestIncomingUni : Highest := ⟨-1, le_rfl⟩
  writable : List Nat := []
  writableSet : Finset Nat := ∅

/-- How many streams each side may open. -/
structure StreamLimits where
  localMaxStreamsBidi : Nat := 0
  localMaxStreamsUni : Nat := 0
  peerMaxStreamsBidi : Nat := 0
  peerMaxStreamsUni : Nat := 0

structure DatagramQueues where
  incomingDatagrams : List Bytes := []
  outgoingDatagrams : List Bytes := []

structure CloseState where
  status : Status := .handshaking
  closeError : Nat := 0
  closeIsApplication : Bool := false
  closeReason : Bytes := []
  closeFramePending : Bool := false
  closeSentAtMs : Nat := 0
  closeSendCount : Nat := 0
  closeWasReceived : Bool := false

structure Activity where
  lastActivityMs : Nat := 0
  idleTimeoutMs : Nat := 30000
  acceptedNewPacket : Bool := false

/-- Before the client's address is validated, what is sent is held to three times what has
been received. -/
structure AntiAmplification where
  bytesReceived : Nat := 0
  bytesSent : Nat := 0
  addressValidated : Bool := false

structure PendingFrames where
  maxDataPending : Bool := false
  maxStreamsBidiPending : Bool := false
  maxStreamsUniPending : Bool := false
  handshakeDonePending : Bool := false
  pingPending : Bool := false
  pathResponsePending : List Bytes := []

structure EventQueue where
  events : List QUICEvent := []
  writableAnnounced : Finset Nat := ∅

/-- A connection, with a history variable that its functions write and never read. -/
structure QUICConnection extends Identity, CryptoState, SpaceState, Flow, StreamLimits,
    DatagramQueues, CloseState, Activity, AntiAmplification, PendingFrames, EventQueue where
  history : List Mark := []

namespace QUICConnection

def mark (c : QUICConnection) (entry : Mark) : QUICConnection := { c with history := entry :: c.history }

def append (c : QUICConnection) (event : QUICEvent) : QUICConnection := { c with events := c.events ++ [event] }

def localLimits (config : QUICServerConfig) (clientDCID localCID : QUICConnectionID) :
    QUICTransportParameters where
  maxIdleTimeoutMs := config.maxIdleTimeoutMs
  initialMaxData := config.initialMaxData
  initialMaxStreamDataBidiLocal := config.initialMaxStreamData
  initialMaxStreamDataBidiRemote := config.initialMaxStreamData
  initialMaxStreamDataUni := config.initialMaxStreamData
  initialMaxStreamsBidi := config.initialMaxStreamsBidi
  initialMaxStreamsUni := config.initialMaxStreamsUni
  maxDatagramFrameSize := config.maxDatagramFrameSize
  activeConnectionIDLimit := 4
  initialSourceCID := localCID
  hasInitialSourceCID := true
  originalDestinationCID := clientDCID
  hasOriginalDestinationCID := true
  maxUDPPayloadSize := 1452

def init (P : Primitives) (config : QUICServerConfig) (version : Nat)
    (clientDCID clientSCID localCID : QUICConnectionID) (nowMs : Nat) : Option QUICConnection := do
  let initial ← quicInitialKeys P clientDCID version
  let parameters := localLimits config clientDCID localCID
  some {
    version := version
    localCID := localCID
    peerCID := clientSCID
    originalDCID := clientDCID
    config := config
    keys := { repeating {} with initial := initial }
    tls := {
      certKeys := config.certKeys
      certKey := config.certKeys.headD 0
      alpnPreference := config.alpn
      localParameters := parameters
      quicVersion := version }
    cryptoReceive := repeating { limit := 256 * 1024 }
    localParameters := parameters
    receiveLimit := parameters.initialMaxData
    localMaxStreamsBidi := parameters.initialMaxStreamsBidi
    localMaxStreamsUni := parameters.initialMaxStreamsUni
    lastActivityMs := nowMs
    idleTimeoutMs := config.maxIdleTimeoutMs }

def takeEvents (c : QUICConnection) : List QUICEvent × QUICConnection :=
  (c.events, { c with events := [], writableAnnounced := ∅ })

def noteWritable (c : QUICConnection) (id : Nat) : QUICConnection :=
  if id ∈ c.writableAnnounced then c
  else
    let c := { c with writableAnnounced := insert id c.writableAnnounced }
    c.append { kind := .streamWritable, streamID := id }

def close (c : QUICConnection) (code : Nat) (application : Bool := false) (reason : Bytes := []) :
    QUICConnection :=
  if c.status.isClosing then c
  else
    let c := { c with
      closeError := code
      closeIsApplication := application
      closeReason := reason
      closeFramePending := true
      status := .closing }
    c.append { kind := .closed, code := code }

def fail (c : QUICConnection) (error : QUICError) : QUICConnection := c.close error.rawValue

def isIdle (c : QUICConnection) (nowMs : Nat) : Bool :=
  if c.idleTimeoutMs = 0 then false
  else c.lastActivityMs + max c.idleTimeoutMs (3 * c.recovery.ptoMs true) < nowMs

def markWritable (c : QUICConnection) (id : Nat) : QUICConnection :=
  if id ∈ c.writableSet then c
  else { c with writableSet := insert id c.writableSet, writable := c.writable ++ [id] }

def modifyStream (c : QUICConnection) (id : Nat) (change : QUICStream → QUICStream) : QUICConnection :=
  { c with streams := c.streams.modify id change }

def retireStream (c : QUICConnection) (id : Nat) : QUICConnection :=
  match c.streams.lookup id with
  | none => c
  | some stream =>
    let c := { c with
      streams := c.streams.erase id
      writableSet := c.writableSet.erase id }
    let c := c.mark (.retired id stream)
    if isClientInitiated id then
      if isUnidirectional id then
        { c with localMaxStreamsUni := c.localMaxStreamsUni + 1, maxStreamsUniPending := true }
      else
        { c with localMaxStreamsBidi := c.localMaxStreamsBidi + 1, maxStreamsBidiPending := true }
    else c

def retireIfFinished (c : QUICConnection) (id : Nat) : QUICConnection :=
  match c.streams.lookup id with
  | none => c
  | some stream => if stream.isFinished then c.retireStream id else c

def openStream (c : QUICConnection) (unidirectional : Bool) : Option Nat × QUICConnection :=
  let limit := if unidirectional then c.peerMaxStreamsUni else c.peerMaxStreamsBidi
  let next := if unidirectional then c.nextLocalStreamUni else c.nextLocalStreamBidi
  if limit ≤ next then (none, c)
  else
    let id := id next true unidirectional
    let receiveLimit := if unidirectional then 0
      else c.localParameters.initialMaxStreamDataBidiLocal
    let stream : QUICStream := {
      send := { limit := if unidirectional then c.peerParameters.initialMaxStreamDataUni
        else c.peerParameters.initialMaxStreamDataBidiRemote }
      receive := { limit := receiveLimit, announced := receiveLimit } }
    let c := { c with streams := c.streams.insert id stream }
    (some id, if unidirectional then { c with nextLocalStreamUni := c.nextLocalStreamUni + 1 }
      else { c with nextLocalStreamBidi := c.nextLocalStreamBidi + 1 })

def releaseStream (c : QUICConnection) (id : Nat) : QUICConnection :=
  (c.modifyStream id fun s => { s with released := true }).retireIfFinished id

/-- Queues bytes. Flow control applies when they are put in a packet. -/
def send (c : QUICConnection) (id : Nat) (p : Bytes) (fin : Bool) : QUICConnection :=
  match c.streams.lookup id with
  | none => c
  | some stream =>
    if stream.send.resetCode.isSome then c
    else
      (c.modifyStream id fun s => { s with
        send := { s.send.write p with finQueued := s.send.finQueued || fin } }).markWritable id

def resetStream (c : QUICConnection) (id code : Nat) : QUICConnection :=
  match c.streams.lookup id with
  | none => c
  | some stream =>
    if stream.send.resetCode.isSome then c
    else
      (c.modifyStream id fun s => { s with
        send := { s.send with resetCode := some code } }).markWritable id

def stopSending (c : QUICConnection) (id code : Nat) : QUICConnection :=
  match c.streams.lookup id with
  | none => c
  | some stream =>
    if stream.stopSendingQueued.isSome then c
    else
      (c.modifyStream id fun s => { s with stopSendingQueued := some code }).markWritable id

def sendDatagram (c : QUICConnection) (p : Bytes) : Bool × QUICConnection :=
  if c.peerParameters.maxDatagramFrameSize = 0 then (false, c)
  else if c.peerParameters.maxDatagramFrameSize < p.length + 8 then (false, c)
  else (true, { c with outgoingDatagrams := c.outgoingDatagrams ++ [p] })

/-- Grants the peer more room on a stream that the application has read from. -/
def extendStreamWindow (c : QUICConnection) (id consumed : Nat) : QUICConnection :=
  match c.streams.lookup id with
  | none => c
  | some stream =>
    let limit := stream.receive.limit
    let granted := consumed + c.config.initialMaxStreamData
    let c :=
      if limit < granted ∧ c.config.initialMaxStreamData / 2 < granted - limit then
        (c.modifyStream id fun s => { s with
          receive := { s.receive with limit := granted } }).markWritable id
      else c
    let connectionGranted := c.receivedBytes + c.config.initialMaxData
    if c.receiveLimit < connectionGranted ∧
        c.config.initialMaxData / 2 < connectionGranted - c.receiveLimit then
      { c with receiveLimit := connectionGranted, maxDataPending := true }
    else c

/-- Reads `n` bytes of a stream that are in order. -/
def consumeReady (c : QUICConnection) (id n : Nat) : QUICConnection :=
  c.modifyStream id fun s => { s with receive := { s.receive with ready := s.receive.ready.drop n } }

def setDelivered (c : QUICConnection) (id : Nat) : QUICConnection :=
  c.modifyStream id fun s => { s with receive := { s.receive with delivered := true } }

def takeDatagrams (c : QUICConnection) : QUICConnection := { c with incomingDatagrams := [] }

def onStreamFrameAcked (c : QUICConnection) (frame : SentStreamFrame) : QUICConnection :=
  match c.streams.lookup frame.id with
  | none => c
  | some stream =>
    let send := stream.send.acknowledge frame.low frame.high
    let send := if frame.fin then { send with finAcked := true } else send
    let c := c.modifyStream frame.id fun s => { s with send := send }
    -- an acknowledgement is what frees the send buffer
    let c := if send.data.length < stream.send.data.length then c.noteWritable frame.id else c
    c.retireIfFinished frame.id

def onPacketAcked (c : QUICConnection) (packet : QUICSentPacket) (level : QUICLevel) : QUICConnection :=
  let frames := packet.frames
  let c := match frames.crypto with
    | some range => { c with
        cryptoSend := c.cryptoSend.modify level fun s => s.acknowledge range.low range.high }
    | none => c
  let c := frames.streams.foldl onStreamFrameAcked c
  let c := frames.resetStream.foldl retireIfFinished c
  let c := frames.stopSending.foldl retireIfFinished c
  if frames.handshakeDone then { c with handshakeDonePending := false } else c

def onStreamFrameLost (c : QUICConnection) (frame : SentStreamFrame) : QUICConnection :=
  match c.streams.lookup frame.id with
  | none => c
  | some _ =>
    (c.modifyStream frame.id fun s =>
      let send := s.send.declareLost frame.low frame.high
      { s with send := if frame.fin then { send with finSent := false } else send })
      |>.markWritable frame.id

/-- The part of a lost packet that both loss handlers treat alike: data, and the control
frames that are re-sent by raising their flag. -/
def onFramesLost (c : QUICConnection) (frames : QUICSentFrames) (level : QUICLevel) : QUICConnection :=
  let c := match frames.crypto with
    | some range => { c with
        cryptoSend := c.cryptoSend.modify level fun s => s.declareLost range.low range.high }
    | none => c
  let c := frames.streams.foldl onStreamFrameLost c
  { c with
    handshakeDonePending := c.handshakeDonePending || frames.handshakeDone
    maxDataPending := c.maxDataPending || frames.maxData
    maxStreamsBidiPending := c.maxStreamsBidiPending || frames.maxStreamsBidi
    maxStreamsUniPending := c.maxStreamsUniPending || frames.maxStreamsUni }

def onResetLost (c : QUICConnection) (id : Nat) : QUICConnection :=
  (c.modifyStream id fun s => { s with send := { s.send with resetSent := false } }).markWritable id

def onStopSendingLost (c : QUICConnection) (id : Nat) : QUICConnection :=
  (c.modifyStream id fun s => { s with stopSendingSent := false }).markWritable id

def onTailLost (c : QUICConnection) (frames : QUICSentFrames) : QUICConnection :=
  let c := frames.resetStream.foldl onResetLost c
  let c := frames.stopSending.foldl onStopSendingLost c
  match frames.pathResponse with
  | some response => { c with pathResponsePending := c.pathResponsePending ++ [response] }
  | none => c

def onPacketLost (c : QUICConnection) (packet : QUICSentPacket) (level : QUICLevel) : QUICConnection :=
  let c := c.onFramesLost packet.frames level
  let c := packet.frames.maxStreamData.foldl markWritable c
  c.onTailLost packet.frames

def onMaxStreamDataLost (c : QUICConnection) (id : Nat) : QUICConnection :=
  (c.modifyStream id fun s => { s with receive := { s.receive with announced := 0 } }).markWritable id

def onPacketLostPublic (c : QUICConnection) (packet : QUICSentPacket) (level : QUICLevel) : QUICConnection :=
  let c := c.onFramesLost packet.frames level
  let c := packet.frames.maxStreamData.foldl onMaxStreamDataLost c
  c.onTailLost packet.frames

def discardSpace (c : QUICConnection) (level : QUICLevel) : QUICConnection :=
  let pair := c.keys.get level
  if !pair.send.isValid && !pair.receive.isValid then c
  else
    let c := c.mark (.discarded level (c.spaces.get level))
    let (space, recovery) := QUICLossDetection.abandon (c.spaces.get level) c.recovery
    { c with
      recovery := recovery
      keys := c.keys.set level {}
      spaces := c.spaces.set level { space with
        acks := space.acks.clear
        ackPending := false
        ackElicitingPending := false }
      cryptoSend := c.cryptoSend.set level {}
      cryptoReceive := c.cryptoReceive.set level {} }

def adoptPeerParameters (c : QUICConnection) : QUICConnection :=
  let peer := c.peerParameters
  { c with
    sendLimit := peer.initialMaxData
    peerMaxStreamsBidi := peer.initialMaxStreamsBidi
    peerMaxStreamsUni := peer.initialMaxStreamsUni
    recovery := { c.recovery with peerMaxAckDelayMs := peer.maxAckDelayMs }
    idleTimeoutMs :=
      if 0 < peer.maxIdleTimeoutMs then
        if c.localParameters.maxIdleTimeoutMs = 0 then peer.maxIdleTimeoutMs
        else min c.localParameters.maxIdleTimeoutMs peer.maxIdleTimeoutMs
      else c.idleTimeoutMs
    -- streams opened before the parameters arrived were given a limit of zero
    streams := c.streams.mapValues fun id s =>
      if isClientInitiated id ∧ isBidirectional id then
        { s with send := { s.send with
          limit := max s.send.limit peer.initialMaxStreamDataBidiLocal } }
      else s }

section
variable (P : Primitives)

def installKeys (c : QUICConnection) (secrets : Secrets) : Option QUICConnection := do
  let send ← quicDirection P secrets.server secrets.cipher c.version
  let receive ← quicDirection P secrets.client secrets.cipher c.version
  let c := { c with keys := c.keys.set secrets.level { send := send, receive := receive } }
  if secrets.level = .application then
    some { c with nextReceiveKeys := (receive.keys.nextGeneration P c.version).getD {} }
  else some c

/-- Installs the pending secrets in order; `false` at the first that fails. -/
def installAll (c : QUICConnection) : List Secrets → QUICConnection × Bool
  | [] => (c, true)
  | secrets :: rest =>
    match c.installKeys P secrets with
    | none => (c, false)
    | some c => installAll c rest

def completeHandshake (c : QUICConnection) : QUICConnection :=
  let c := c.mark (.completed c.status)
  let c := { c with
    handshakeComplete := true
    handshakeDonePending := true
    handshakeConfirmed := true
    keyUpdatePermitted := true
    selectedALPN := c.tls.selectedALPN
    serverName := c.tls.serverName
    peerParameters := c.tls.peerParameters }
  let c := c.adoptPeerParameters
  let c := { c with status := .connected }
  let c := c.append { kind := .handshakeComplete }
  c.discardSpace .handshake

/-- Moves what TLS produced into the crypto streams and installs the keys it derived. -/
def applyTLSProgress (c : QUICConnection) : QUICConnection × Bool :=
  match c.tls.alert with
  | some alert => (c.close (quicCryptoError alert), false)
  | none =>
    let c := { c with
      cryptoSend := (c.cryptoSend.modify .initial fun s => s.write c.tls.initialOut).modify
        .handshake fun s => s.write c.tls.handshakeOut
      tls := { c.tls with initialOut := [], handshakeOut := [] } }
    let (secrets, tls) := c.tls.takePendingSecrets
    let c := { c with tls := tls }
    match c.installAll P secrets with
    | (c, false) => (c.fail .internalError, false)
    | (c, true) =>
      if c.tls.state = .complete ∧ !c.handshakeComplete then (c.completeHandshake, true)
      else (c, true)

def commitKeyUpdate (c : QUICConnection) (nowMs packetNumber : Nat) : QUICConnection :=
  let pair := c.keys.application
  let receive := { pair.receive with keys := c.nextReceiveKeys }
  let send := { pair.send with
    keys := (pair.send.keys.nextGeneration P c.version).getD pair.send.keys }
  { c with
    currentPhaseFirstPacket := packetNumber
    previousReceiveKeys := pair.receive.keys
    previousKeysExpireMs := nowMs + 3 * max c.recovery.smoothedRTTMs 10
    keys := { c.keys with application := { send := send, receive := receive } }
    nextReceiveKeys := (c.nextReceiveKeys.nextGeneration P c.version).getD {}
    currentKeyPhase := !c.currentKeyPhase }

end
end QUICConnection
end AvianCore.Quic
