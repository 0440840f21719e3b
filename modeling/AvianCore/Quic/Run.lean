import AvianCore.Quic.Receive
import AvianCore.Quic.Send
import AvianCore.Quic.Timer

/-!
Runs of a connection: any sequence of datagrams, timeouts and calls of the application.
-/

namespace AvianCore.Quic
open QUICConnection

/-- What can happen to a connection. -/
inductive Op where
  | receive (datagram : Bytes) (nowMs : Nat)
  | nextDatagram (capacity nowMs : Nat)
  | onTimeout (nowMs : Nat)
  | close (code : Nat) (application : Bool) (reason : Bytes)
  | openStream (unidirectional : Bool)
  | releaseStream (id : Nat)
  | send (id : Nat) (p : Bytes) (fin : Bool)
  | resetStream (id code : Nat)
  | stopSending (id code : Nat)
  | sendDatagram (p : Bytes)
  | extendStreamWindow (id consumed : Nat)
  | consumeReady (id n : Nat)
  | setDelivered (id : Nat)
  | takeDatagrams
  | takeEvents
  deriving DecidableEq, Repr

/-- A connection and the events that have been handed over. -/
structure World where
  conn : QUICConnection
  handed : List QUICEvent := []

namespace World
variable (P : Primitives)

def step (w : World) : Op → World
  | .receive datagram nowMs => { w with conn := w.conn.receive P datagram nowMs }
  | .nextDatagram capacity nowMs => { w with conn := (w.conn.nextDatagram P capacity nowMs).1 }
  | .onTimeout nowMs => { w with conn := w.conn.onTimeout nowMs }
  | .close code application reason => { w with conn := w.conn.close code application reason }
  | .openStream unidirectional => { w with conn := (w.conn.openStream unidirectional).2 }
  | .releaseStream id => { w with conn := w.conn.releaseStream id }
  | .send id p fin => { w with conn := w.conn.send id p fin }
  | .resetStream id code => { w with conn := w.conn.resetStream id code }
  | .stopSending id code => { w with conn := w.conn.stopSending id code }
  | .sendDatagram p => { w with conn := (w.conn.sendDatagram p).2 }
  | .extendStreamWindow id consumed => { w with conn := w.conn.extendStreamWindow id consumed }
  | .consumeReady id n => { w with conn := w.conn.consumeReady id n }
  | .setDelivered id => { w with conn := w.conn.setDelivered id }
  | .takeDatagrams => { w with conn := w.conn.takeDatagrams }
  | .takeEvents => ⟨w.conn.takeEvents.2, w.handed ++ w.conn.takeEvents.1⟩

def run (w : World) (ops : List Op) : World := ops.foldl (step P) w

def Fresh (w : World) : Prop :=
  w.handed = [] ∧ ∃ config version clientDCID clientSCID localCID nowMs,
    init P config version clientDCID clientSCID localCID nowMs = some w.conn

def Reachable (w : World) : Prop := ∃ start ops, Fresh P start ∧ start.run P ops = w

/-- The `closed` events that have been appended, handed over or not. -/
def closedEvents (w : World) : Nat := (w.handed ++ w.conn.events).countP fun event => event.kind == .closed

end World

namespace Client

/-- A packet with a long header, one byte of packet number and no connection identifiers. -/
def longPacket (first : UInt8) (token : Bytes) (packetNumber : UInt8) (payload : Bytes) : Bytes :=
  [first, 0, 0, 0, 1, 0, 0] ++ token ++ quicWriteVarint (payload.length + 17)
    ++ packetNumber :: payload ++ zeros 16

def initialPacket : UInt8 → Bytes → Bytes := longPacket 0xC0 [0]

def handshakePacket : UInt8 → Bytes → Bytes := longPacket 0xE0 []

def shortPacket (packetNumber : UInt8) (payload : Bytes) : Bytes := [0x40, packetNumber] ++ payload ++ zeros 16

def cryptoFrame (data : Bytes) : Bytes := [6, 0] ++ quicWriteVarint data.length ++ data

/-- A ClientHello with one cipher, one group, one signature scheme and these transport
parameters. -/
def clientHello (parameters : Bytes) : Bytes :=
  let extensions : Bytes := [0, 43, 0, 3, 2, 3, 4] ++ [0, 51, 0, 7, 0, 5, 0, 0x1d, 0, 1, 0]
    ++ [0, 13, 0, 4, 0, 2, 4, 3] ++ [0, 57] ++ lengthPrefixed 2 parameters
  1 :: lengthPrefixed 3 ([3, 3] ++ zeros 32 ++ [0] ++ [0, 2, 0x13, 0x01] ++ [1, 0]
    ++ lengthPrefixed 2 extensions)

/-- Limits of 256 bytes for the connection and for each stream, and ten streams of each kind. -/
def parameters : Bytes := [4, 2, 0x41, 0, 5, 2, 0x41, 0, 6, 2, 0x41, 0, 7, 2, 0x41, 0, 8, 1, 10, 9, 1, 10]

def hello : Op := .receive (initialPacket 0 (cryptoFrame (clientHello parameters))) 1

def finished : Op := .receive (handshakePacket 0 (cryptoFrame (20 :: lengthPrefixed 3 (zeros 32)))) 2

end Client

namespace World

theorem start_made : (init .transparent {} 1 {} {} {} 0).isSome = true := by
  decide +kernel

def start : World := ⟨(init .transparent {} 1 {} {} {} 0).get start_made, []⟩

theorem start_fresh : Fresh .transparent start := ⟨rfl, {}, 1, {}, {}, {}, 0, (Option.some_get start_made).symm⟩

theorem start_reaches (ops : List Op) : Reachable .transparent (start.run .transparent ops) :=
  ⟨start, ops, start_fresh, rfl⟩

end World
end AvianCore.Quic
