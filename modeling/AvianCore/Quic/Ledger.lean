import AvianCore.Lib.Logged
import AvianCore.Quic.Run

/-!
The abstract connection. A ledger keeps what the guarantees of a connection are about: its
status, its flow control, the packets it has accepted and sent, and the history. The effects
below are the ways in which it may change, each with what the code has checked by then.
-/

namespace AvianCore.Quic
open AvianCore.Lib List QUICStreamKind

namespace QUICStream

/-- A STOP_SENDING, a RESET_STREAM or a MAX_STREAM_DATA frame that is due. -/
def owesStop (s : QUICStream) : Bool := s.stopSendingQueued.isSome && !s.stopSendingSent

def owesReset (s : QUICStream) : Bool := s.send.resetCode.isSome && !s.send.resetSent

def owesLimit (s : QUICStream) : Bool := s.receive.announced < s.receive.limit

def owesControl (s : QUICStream) : Bool := s.owesStop || s.owesReset || s.owesLimit

def owesData (s : QUICStream) : Bool := s.send.resetCode.isNone && s.send.owes

def stopSize (id : Nat) (s : QUICStream) : Nat :=
  if s.owesStop then 1 + quicVarintLength id + quicVarintLength (s.stopSendingQueued.getD 0) else 0

def resetSize (id : Nat) (s : QUICStream) : Nat :=
  if s.owesReset then 1 + quicVarintLength id + quicVarintLength (s.send.resetCode.getD 0)
    + quicVarintLength s.send.written else 0

def limitSize (id : Nat) (s : QUICStream) : Nat :=
  if s.owesLimit then 1 + quicVarintLength id + quicVarintLength s.receive.limit else 0

end QUICStream

/-- A turn with room for every control frame that is due. The turn that resets a stream has none for
MAX_STREAM_DATA, so no such frame may be due then. -/
def TurnFits (id : Nat) (s : QUICStream) (room : Int) : Prop :=
  ((s.stopSize id + s.resetSize id + s.limitSize id : Nat) : Int) ≤ room ∧ ¬(s.owesReset ∧ s.owesLimit)

instance (id : Nat) (s : QUICStream) (room : Int) : Decidable (TurnFits id s room) :=
  inferInstanceAs (Decidable (_ ∧ _))

namespace Flow

def put (f : Flow) (id : Nat) (s : QUICStream) : Flow := { f with streams := f.streams.modify id fun _ => s }

def markWritable (f : Flow) (id : Nat) : Flow :=
  if id ∈ f.writableSet then f
  else { f with writableSet := insert id f.writableSet, writable := f.writable ++ [id] }

def markIf (f : Flow) (marks : Bool) (id : Nat) : Flow := if marks then f.markWritable id else f

def unmark (f : Flow) (id : Nat) : Flow := { f with writableSet := f.writableSet.erase id }

def openIncoming (f : Flow) (unidirectional : Bool) : Flow :=
  let highest := if unidirectional then f.highestIncomingUni else f.highestIncomingBidi
  let next : Highest := ⟨highest.val + 1, le_trans highest.property (by omega)⟩
  let limit := if unidirectional then f.localParameters.initialMaxStreamDataUni
    else f.localParameters.initialMaxStreamDataBidiRemote
  let stream : QUICStream := {
    receive := { limit := limit, announced := limit }
    send := { limit := if unidirectional then 0 else f.peerParameters.initialMaxStreamDataBidiLocal } }
  let f := { f with
    streams := f.streams.insert (id next.val.toNat false unidirectional) stream }
  if unidirectional then { f with highestIncomingUni := next }
  else { f with highestIncomingBidi := next }

def openLocal (f : Flow) (unidirectional : Bool) : Flow :=
  let next := if unidirectional then f.nextLocalStreamUni else f.nextLocalStreamBidi
  let limit := if unidirectional then 0 else f.localParameters.initialMaxStreamDataBidiLocal
  let stream : QUICStream := {
    send := { limit := if unidirectional then f.peerParameters.initialMaxStreamDataUni
      else f.peerParameters.initialMaxStreamDataBidiRemote }
    receive := { limit := limit, announced := limit } }
  let f := { f with streams := f.streams.insert (id next true unidirectional) stream }
  if unidirectional then { f with nextLocalStreamUni := f.nextLocalStreamUni + 1 }
  else { f with nextLocalStreamBidi := f.nextLocalStreamBidi + 1 }

def adopt (f : Flow) (peer : QUICTransportParameters) : Flow :=
  { f with
    peerParameters := peer
    sendLimit := peer.initialMaxData
    streams := f.streams.mapValues fun id s =>
      if isClientInitiated id ∧ isBidirectional id then
        { s with send := { s.send with
          limit := max s.send.limit peer.initialMaxStreamDataBidiLocal } }
      else s }

end Flow

/-- Every stream range that a packet carries has been sent on its stream. -/
def FramesSent (streams : Table Nat QUICStream) (frames : QUICSentFrames) : Prop :=
  ∀ frame ∈ frames.streams, ∃ s, streams.lookup frame.id = some s ∧ frame.high ≤ s.send.sent

structure Ledger where
  flow : Flow
  status : Status
  /-- The `closed` events appended so far. -/
  closes : Nat
  history : List Mark
  acks : PerLevel QUICAckRanges
  outstanding : PerLevel (List QUICSentPacket)
  /-- The levels whose packets can be opened. -/
  receivable : PerLevel Bool
  /-- The ClientHello has not been handled yet. -/
  awaiting : Bool
  /-- The levels of the secrets that have not been installed. -/
  pending : List QUICLevel
  complete : Bool
  /-- The transport parameters of the peer, before they are adopted. -/
  offered : QUICTransportParameters
  amplification : AntiAmplification

/-- What one frame, call or turn does to one stream; the flag says whether the stream is then put
on the writable list. -/
inductive StreamStep (history : List Mark) (id : Nat) : Bool → QUICStream → QUICStream → Prop where
  | quiet (s s' : QUICStream) (send : s'.send = s.send)
      (highWater : s'.receive.highWater = s.receive.highWater)
      (limit : s'.receive.limit = s.receive.limit)
      (announced : s'.receive.announced = s.receive.announced)
      (queued : s'.stopSendingQueued = s.stopSendingQueued)
      (stopSent : s'.stopSendingSent = s.stopSendingSent) : StreamStep history id false s s'
  | write (s : QUICStream) (p : Bytes) (fin : Bool) : StreamStep history id true s
      { s with send := { s.send.write p with finQueued := s.send.finQueued || fin } }
  | reset (s : QUICStream) (code : Nat) : StreamStep history id true s
      { s with send := { s.send with resetCode := some code } }
  | stop (s : QUICStream) (code : Nat) : StreamStep history id true s
      { s with stopSendingQueued := some code }
  | extend (s : QUICStream) (limit : Nat) (raises : s.receive.limit ≤ limit) :
      StreamStep history id true s { s with receive := { s.receive with limit := limit } }
  | raise (s : QUICStream) (limit : Nat) (raises : s.send.limit ≤ limit)
      (granted : .maxStreamData id limit ∈ history) :
      StreamStep history id true s { s with send := { s.send with limit := limit } }
  | acked (s : QUICStream) (level : QUICLevel) (packet : QUICSentPacket) (frame : SentStreamFrame)
      (settled : .acked level packet ∈ history) (carried : frame ∈ packet.frames.streams)
      (named : frame.id = id) : StreamStep history id false s
      { s with send :=
          if frame.fin then { s.send.acknowledge frame.low frame.high with finAcked := true }
          else s.send.acknowledge frame.low frame.high }
  | lost (s : QUICStream) (level : QUICLevel) (packet : QUICSentPacket) (frame : SentStreamFrame)
      (settled : .lost level packet ∈ history) (carried : frame ∈ packet.frames.streams)
      (named : frame.id = id) : StreamStep history id true s
      { s with send :=
          if frame.fin then { s.send.declareLost frame.low frame.high with finSent := false }
          else s.send.declareLost frame.low frame.high }
  | resetLost (s : QUICStream) : StreamStep history id true s
      { s with send := { s.send with resetSent := false } }
  | stopLost (s : QUICStream) : StreamStep history id true s { s with stopSendingSent := false }
  | limitLost (s : QUICStream) : StreamStep history id true s
      { s with receive := { s.receive with announced := 0 } }

/-- What a turn put on the wire from a stream's send buffer, with the connection's new count. -/
inductive Carried (f : Flow) (send : QUICSendStream) : QUICSendStream → Nat → Prop where
  | nothing (resetSent : Bool) : Carried f send { send with resetSent := resetSent } f.sentBytes
  | again (range : ByteRange) (rest : List ByteRange) (length : Nat)
      (first : send.lost.ranges = range :: rest) (proper : range.low < range.high)
      (fits : length ≤ range.high - range.low) : Carried f send { send with
        lost := send.lost.subtract range.low (range.low + length)
        sent := max send.sent (range.low + length) } f.sentBytes
  | fresh (length : Nat) (fin : Bool) (queued : length ≤ send.written - send.sent)
      (streamRoom : length ≤ send.window) (connectionRoom : length ≤ f.sendLimit - f.sentBytes) :
      Carried f send { send with
        sent := max send.sent (send.sent + length)
        finSent := send.finSent || fin } (addWrapping f.sentBytes length)

/-- A stream's turn at a packet; `stays` says whether it keeps its place on the list. -/
structure Turned (f : Flow) (id : Nat) (s s' : QUICStream) (room : Int) (sentBytes : Nat)
    (stays : Bool) : Prop where
  receive : s'.receive = { s.receive with announced := s'.receive.announced }
  queued : s'.stopSendingQueued = s.stopSendingQueued
  carried : Carried f s.send s'.send sentBytes
  sentData : stays = false → s'.owesData = false
  sentControl : TurnFits id s room → s'.owesControl = false

namespace Ledger

def mark (a : Ledger) (entry : Mark) : Ledger := { a with history := entry :: a.history }

def charge (a : Ledger) (growth : Nat) : Ledger :=
  if growth = 0 then a
  else
    { a with
      history := .credit a.flow.receivedBytes growth :: a.history
      flow := { a.flow with receivedBytes := addWrapping a.flow.receivedBytes growth } }

def Affords (a : Ledger) (growth : Nat) : Prop :=
  growth = 0 ∨ addWrapping a.flow.receivedBytes growth ≤ a.flow.receiveLimit

/-- The ledger of a new connection. -/
structure Initial (a : Ledger) : Prop where
  streams : a.flow.streams = ∅
  sentBytes : a.flow.sentBytes = 0
  sendLimit : a.flow.sendLimit = 0
  receivedBytes : a.flow.receivedBytes = 0
  peerParameters : a.flow.peerParameters = {}
  writableSet : a.flow.writableSet = ∅
  highestBidi : a.flow.highestIncomingBidi.val = -1
  highestUni : a.flow.highestIncomingUni.val = -1
  nextBidi : a.flow.nextLocalStreamBidi = 0
  nextUni : a.flow.nextLocalStreamUni = 0
  status : a.status = .handshaking
  closes : a.closes = 0
  history : a.history = []
  acks : ∀ level, (a.acks.get level).ranges = []
  outstanding : ∀ level, a.outstanding.get level = []
  receivable : ∀ level, a.receivable.get level = true → level = .initial
  awaiting : a.awaiting = true
  pending : a.pending = []
  complete : a.complete = false
  offered : a.offered = {}
  amplification : a.amplification = {}

inductive Effect : Ledger → Ledger → Prop where
  | close (a : Ledger) (alive : ¬a.status.isClosing) :
      Effect a { a with status := .closing, closes := a.closes + 1 }
  | peerClose (a : Ledger) : Effect a { a with
      status := .closing
      closes := a.closes + 1
      history := .peerClose a.status :: a.history }
  | drain (a : Ledger) (closing : a.status = .closing) : Effect a { a with status := .drained }
  | idle (a : Ledger) (alive : ¬a.status.isClosing) :
      Effect a { a with status := .drained, closes := a.closes + 1 }
  | completed (a : Ledger) (first : a.complete = false) (answered : a.awaiting = false)
      (installed : a.pending = []) : Effect a { a with
        status := .connected
        complete := true
        history := .completed a.status :: a.history
        flow := a.flow.adopt a.offered }
  | discard (a : Ledger) (level : QUICLevel) (space : QUICPacketSpace)
      (past : level = .initial ∨ (level = .handshake ∧ a.complete = true)) : Effect a { a with
        history := .discarded level space :: a.history
        receivable := a.receivable.set level false
        acks := a.acks.set level (a.acks.get level).clear
        outstanding := a.outstanding.set level [] }
  | install (a : Ledger) (receivable : PerLevel Bool)
      (known : ∀ level, receivable.get level = true → a.receivable.get level = true ∨ level ∈ a.pending) :
      Effect a { a with receivable := receivable, pending := [] }
  | handshake (a : Ledger) (awaiting : Bool) (pending : List QUICLevel)
      (offered : QUICTransportParameters)
      (once : awaiting = true → a.awaiting = true)
      (answered : a.awaiting = false → pending = a.pending)
      (levels : ∀ level ∈ pending, level ∈ a.pending ∨ level ≠ .initial)
      (bounded : offered = a.offered ∨ offered.Bounded) :
      Effect a { a with awaiting := awaiting, pending := pending, offered := offered }
  | openIncoming (a : Ledger) (unidirectional : Bool) :
      Effect a { a with flow := a.flow.openIncoming unidirectional }
  | openLocal (a : Ledger) (unidirectional : Bool) :
      Effect a { a with flow := a.flow.openLocal unidirectional }
  | retire (a : Ledger) (id : Nat) (s : QUICStream) (live : a.flow.streams.lookup id = some s) :
      Effect a { a with
        flow := ({ a.flow with streams := a.flow.streams.erase id } : Flow).unmark id
        history := .retired id s :: a.history }
  | stream (a : Ledger) (id : Nat) (s s' : QUICStream) (marks : Bool)
      (live : a.flow.streams.lookup id = some s) (step : StreamStep a.history id marks s s') :
      Effect a { a with flow := (a.flow.put id s').markIf marks id }
  | markWritable (a : Ledger) (id : Nat) : Effect a { a with flow := a.flow.markWritable id }
  | raiseCredit (a : Ledger) (limit : Nat) (raises : a.flow.receiveLimit ≤ limit) :
      Effect a { a with flow := { a.flow with receiveLimit := limit } }
  | data (a : Ledger) (id : Nat) (s s' : QUICStream) (growth : Nat)
      (live : a.flow.streams.lookup id = some s) (affords : a.Affords growth)
      (grows : s'.receive.highWater = s.receive.highWater + growth)
      (within : s'.receive.highWater ≤ max s.receive.highWater s.receive.limit)
      (limit : s'.receive.limit = s.receive.limit)
      (announced : s'.receive.announced = s.receive.announced)
      (rest : s' = { s with receive := s'.receive }) :
      Effect a { a.charge growth with flow := (a.charge growth).flow.put id s' }
  | resetReceived (a : Ledger) (id : Nat) (s s' : QUICStream) (finalSize : Nat)
      (live : a.flow.streams.lookup id = some s)
      (enough : s.receive.highWater ≤ finalSize)
      (affords : a.Affords (finalSize - s.receive.highWater))
      (grows : s'.receive.highWater = finalSize)
      (limit : s'.receive.limit = s.receive.limit)
      (announced : s'.receive.announced = s.receive.announced)
      (rest : s' = { s with receive := s'.receive }) :
      Effect a { (a.charge (finalSize - s.receive.highWater)).mark (.resetReceived s finalSize) with
        flow := (a.charge (finalSize - s.receive.highWater)).flow.put id s' }
  | overcharge (a : Ledger) (growth : Nat) (closing : a.status.isClosing) :
      Effect a (a.charge growth)
  | maxData (a : Ledger) (limit : Nat) (small : limit < 2 ^ 62) :
      Effect a { a.mark (.maxData limit) with
        flow := { a.flow with sendLimit := max a.flow.sendLimit limit } }
  | maxStreamData (a : Ledger) (id limit : Nat) : Effect a (a.mark (.maxStreamData id limit))
  | unmark (a : Ledger) (id : Nat) (dead : a.flow.streams.lookup id = none) :
      Effect a { a with flow := a.flow.unmark id }
  | turn (a : Ledger) (id : Nat) (s s' : QUICStream) (room : Int) (sentBytes : Nat) (stays : Bool)
      (reset : Option QUICStream) (live : a.flow.streams.lookup id = some s)
      (connected : a.complete = true) (turned : Turned a.flow id s s' room sentBytes stays)
      (same : ∀ t ∈ reset, t.send = s.send) :
      Effect a { a with
        history := (reset.map fun t => Mark.resetWritten id t t.send.written).toList
          ++ .turn id s room :: a.history
        flow := let f := { a.flow.put id s' with sentBytes := sentBytes }
          if stays then f else f.unmark id }
  | requeue (a : Ledger) (writable : List Nat)
      (kept : ∀ id ∈ a.flow.writableSet, id ∈ a.flow.writable → id ∈ writable) :
      Effect a { a with flow := { a.flow with writable := writable } }
  | send (a : Ledger) (level : QUICLevel) (packet : QUICSentPacket) (rest : List QUICSentPacket)
      (covered : FramesSent a.flow.streams packet.frames)
      (restSent : rest ⊆ a.outstanding.get level ++ [packet]) : Effect a { a with
        history := .sent level packet :: a.history
        outstanding := a.outstanding.set level rest }
  | settle (a : Ledger) (level : QUICLevel) (acked lost rest : List QUICSentPacket)
      (ackedSent : acked ⊆ a.outstanding.get level) (lostSent : lost ⊆ a.outstanding.get level)
      (restSent : rest ⊆ a.outstanding.get level) : Effect a { a with
        history := acked.map (Mark.acked level) ++ lost.map (Mark.lost level) ++ a.history
        acks := a.acks.set level (QUICLossDetection.trimAcks (a.acks.get level) acked)
        outstanding := a.outstanding.set level rest }
  | received (a : Ledger) (n : Nat) : Effect a { a with amplification :=
      { a.amplification with bytesReceived := a.amplification.bytesReceived + n } }
  | validated (a : Ledger) : Effect a { a with amplification :=
      { a.amplification with addressValidated := true } }
  | sentBytes (a : Ledger) (n : Nat)
      (within : a.amplification.addressValidated = false →
        a.amplification.bytesSent + n ≤ 3 * a.amplification.bytesReceived) :
      Effect a { a with amplification := { a.amplification with bytesSent := a.amplification.bytesSent + n } }

variable {a b : Ledger}

theorem Effect.grows (effect : Effect a b) : a.history <:+ b.history := by
  cases effect <;> try exact suffix_rfl
  case peerClose => exact suffix_cons _ _
  case completed => exact suffix_cons _ _
  case discard => exact suffix_cons _ _
  case retire => exact suffix_cons _ _
  case data growth _ _ _ _ _ _ _ =>
    simp only [charge]
    split_ifs
    · exact suffix_rfl
    · exact suffix_cons _ _
  case resetReceived => 
    simp only [charge, mark]
    split_ifs
    · exact suffix_cons _ _
    · exact (suffix_cons _ _).trans (suffix_cons _ _)
  case overcharge =>
    simp only [charge]
    split_ifs
    · exact suffix_rfl
    · exact suffix_cons _ _
  case maxData => exact suffix_cons _ _
  case maxStreamData => exact suffix_cons _ _
  case turn => exact (suffix_cons _ _).trans (suffix_append _ _)
  case send => exact suffix_cons _ _
  case settle => exact suffix_append _ _

def effects : Logged Ledger Mark where
  log := Ledger.history
  Step := Effect
  grows := Effect.grows

/-- A packet that is not a duplicate, at a level whose keys are there, is taken up. -/
inductive Begins : QUICLevel × Nat → Ledger → Ledger → Prop where
  | frames (a : Ledger) (level : QUICLevel) (packetNumber : Nat)
      (receivable : a.receivable.get level = true)
      (fresh : (a.acks.get level).contains packetNumber = false) :
      Begins (level, packetNumber) a (a.mark (.frames level packetNumber))

/-- The frames of the packet are all done, or were given up. -/
inductive Ends : QUICLevel × Nat → Ledger → Ledger → Prop where
  | cutShort (a : Ledger) (level : QUICLevel) (packetNumber : Nat) :
      Ends (level, packetNumber) a (a.mark (.cutShort level packetNumber))
  | added (a : Ledger) (level : QUICLevel) (packetNumber : Nat) : Ends (level, packetNumber) a
      { a.mark (.ackAdded level (a.acks.get level) packetNumber) with
        acks := a.acks.set level ((a.acks.get level).add packetNumber) }

theorem Begins.grows {key : QUICLevel × Nat} (begins : Begins key a b) : a.history <:+ b.history := by
  cases begins
  exact suffix_cons _ _

theorem Ends.grows {key : QUICLevel × Nat} (ends : Ends key a b) : a.history <:+ b.history := by
  cases ends <;> exact suffix_cons _ _

/-- A connection as a machine: its packets are taken up one at a time. -/
def machine : Logged Ledger Mark := effects.transactions Begins Ends Begins.grows Ends.grows

theorem machine_keeps {good : Mark → Prop} {I : Ledger → Prop} (run : machine.Chain a b)
    (effect : ∀ s t, Effect s t → effects.Clean good t → I s → I t) (begins : ∀ key s t, Begins key s t → I s → I t)
    (ends : ∀ key s t, Ends key s t → I s → I t) (clean : machine.Clean good b) (start : I a) : I b :=
  run.keeps (fun _ _ move clean => Logged.Transact.keeps move Ends.grows effect begins ends clean) clean start

end Ledger
end AvianCore.Quic
