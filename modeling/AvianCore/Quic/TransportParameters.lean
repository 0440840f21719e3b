import AvianCore.Quic.Packet

/-!
The transport parameters: the limits each endpoint announces inside the handshake.
-/

namespace AvianCore.Quic
open Option QUICConnectionID

structure QUICTransportParameters where
  maxIdleTimeoutMs : Nat := 0
  maxUDPPayloadSize : Nat := 65527
  initialMaxData : Nat := 0
  initialMaxStreamDataBidiLocal : Nat := 0
  initialMaxStreamDataBidiRemote : Nat := 0
  initialMaxStreamDataUni : Nat := 0
  initialMaxStreamsBidi : Nat := 0
  initialMaxStreamsUni : Nat := 0
  ackDelayExponent : Nat := 3
  maxAckDelayMs : Nat := 25
  disableActiveMigration : Bool := false
  activeConnectionIDLimit : Nat := 2
  maxDatagramFrameSize : Nat := 0
  originalDestinationCID : QUICConnectionID := {}
  initialSourceCID : QUICConnectionID := {}
  retrySourceCID : QUICConnectionID := {}
  hasInitialSourceCID : Bool := false
  hasOriginalDestinationCID : Bool := false
  statelessResetToken : Bytes := []
  deriving DecidableEq, Repr

namespace QUICTransportParameters

@[match_pattern] def originalDestinationConnectionID : Nat := 0x00
@[match_pattern] def maxIdleTimeout : Nat := 0x01
@[match_pattern] def statelessResetTokenID : Nat := 0x02
@[match_pattern] def maxUDPPayloadSizeID : Nat := 0x03
@[match_pattern] def initialMaxDataID : Nat := 0x04
@[match_pattern] def initialMaxStreamDataBidiLocalID : Nat := 0x05
@[match_pattern] def initialMaxStreamDataBidiRemoteID : Nat := 0x06
@[match_pattern] def initialMaxStreamDataUniID : Nat := 0x07
@[match_pattern] def initialMaxStreamsBidiID : Nat := 0x08
@[match_pattern] def initialMaxStreamsUniID : Nat := 0x09
@[match_pattern] def ackDelayExponentID : Nat := 0x0a
@[match_pattern] def maxAckDelay : Nat := 0x0b
@[match_pattern] def disableActiveMigrationID : Nat := 0x0c
@[match_pattern] def preferredAddress : Nat := 0x0d
@[match_pattern] def activeConnectionIDLimitID : Nat := 0x0e
@[match_pattern] def initialSourceConnectionID : Nat := 0x0f
@[match_pattern] def retrySourceConnectionID : Nat := 0x10
@[match_pattern] def maxDatagramFrameSizeID : Nat := 0x20

def writeInt (id value : Nat) : Bytes :=
  quicWriteVarint id ++ quicWriteVarint (quicVarintLength value) ++ quicWriteVarint value

def writeCID (id : Nat) (cid : QUICConnectionID) : Bytes :=
  quicWriteVarint id ++ quicWriteVarint cid.length ++ cid.bytes

def encode (p : QUICTransportParameters) (isServer : Bool) : Bytes :=
  (if 0 < p.maxIdleTimeoutMs then writeInt maxIdleTimeout p.maxIdleTimeoutMs else [])
  ++ writeInt maxUDPPayloadSizeID p.maxUDPPayloadSize
  ++ writeInt initialMaxDataID p.initialMaxData
  ++ writeInt initialMaxStreamDataBidiLocalID p.initialMaxStreamDataBidiLocal
  ++ writeInt initialMaxStreamDataBidiRemoteID p.initialMaxStreamDataBidiRemote
  ++ writeInt initialMaxStreamDataUniID p.initialMaxStreamDataUni
  ++ writeInt initialMaxStreamsBidiID p.initialMaxStreamsBidi
  ++ writeInt initialMaxStreamsUniID p.initialMaxStreamsUni
  ++ writeInt ackDelayExponentID p.ackDelayExponent
  ++ writeInt maxAckDelay p.maxAckDelayMs
  ++ writeInt activeConnectionIDLimitID p.activeConnectionIDLimit
  ++ (if p.disableActiveMigration then
      quicWriteVarint disableActiveMigrationID ++ quicWriteVarint 0 else [])
  ++ (if 0 < p.maxDatagramFrameSize then
      writeInt maxDatagramFrameSizeID p.maxDatagramFrameSize else [])
  ++ (if p.hasInitialSourceCID then writeCID initialSourceConnectionID p.initialSourceCID else [])
  ++ (if isServer && p.hasOriginalDestinationCID then
      writeCID originalDestinationConnectionID p.originalDestinationCID else [])
  ++ (if isServer && !p.statelessResetToken.isEmpty then
      quicWriteVarint statelessResetTokenID ++ quicWriteVarint p.statelessResetToken.length
        ++ p.statelessResetToken else [])

/-- A varint parameter that has to satisfy `check`. -/
def readInt (body : Bytes) (check : Nat → Bool) : Option Nat := do
  let (x, _) ← (⟨body, 0⟩ : QUICReader).varint
  if check x then some x else none

def decodeOne (out : QUICTransportParameters) (id : Nat) (body : Bytes) (fromServer : Bool) :
    Option QUICTransportParameters :=
  match id with
  | maxIdleTimeout => (readInt body fun _ => true).map fun x => { out with maxIdleTimeoutMs := x }
  | maxUDPPayloadSizeID => (readInt body fun x => 1200 ≤ x).map fun x => { out with maxUDPPayloadSize := x }
  | initialMaxDataID => (readInt body fun _ => true).map fun x => { out with initialMaxData := x }
  | initialMaxStreamDataBidiLocalID => (readInt body fun _ => true).map fun x =>
      { out with initialMaxStreamDataBidiLocal := x }
  | initialMaxStreamDataBidiRemoteID => (readInt body fun _ => true).map fun x =>
      { out with initialMaxStreamDataBidiRemote := x }
  | initialMaxStreamDataUniID => (readInt body fun _ => true).map fun x => { out with initialMaxStreamDataUni := x }
  | initialMaxStreamsBidiID => (readInt body fun x => x ≤ 2 ^ 60).map fun x => { out with initialMaxStreamsBidi := x }
  | initialMaxStreamsUniID => (readInt body fun x => x ≤ 2 ^ 60).map fun x => { out with initialMaxStreamsUni := x }
  | ackDelayExponentID => (readInt body fun x => x ≤ 20).map fun x => { out with ackDelayExponent := x }
  | maxAckDelay => (readInt body fun x => x < 2 ^ 14).map fun x => { out with maxAckDelayMs := x }
  | disableActiveMigrationID => if body.length ≠ 0 then none else some { out with disableActiveMigration := true }
  | activeConnectionIDLimitID => (readInt body fun x => 2 ≤ x).map fun x => { out with activeConnectionIDLimit := x }
  | initialSourceConnectionID => (ofBytes body).map fun cid =>
      { out with initialSourceCID := cid, hasInitialSourceCID := true }
  | originalDestinationConnectionID =>
    -- a client that claims to have chosen the server's connection ID is refused
    if !fromServer then none
    else (ofBytes body).map fun cid =>
      { out with originalDestinationCID := cid, hasOriginalDestinationCID := true }
  | retrySourceConnectionID =>
    if !fromServer then none
    else (ofBytes body).map fun cid => { out with retrySourceCID := cid }
  | statelessResetTokenID =>
    if !fromServer || body.length ≠ 16 then none
    else some { out with statelessResetToken := body }
  | preferredAddress => if !fromServer then none else some out
  | maxDatagramFrameSizeID => (readInt body fun _ => true).map fun x => { out with maxDatagramFrameSize := x }
  | _ => some out

def decodeLoop (fromServer : Bool) : Nat → List Nat → QUICTransportParameters → QUICReader →
    Option QUICTransportParameters
  | 0, _, out, _ => some out
  | fuel + 1, seen, out, r =>
    if r.isEmpty then some out
    else do
      let (id, r) ← r.varint
      let (length, r) ← r.varintAsInt
      let (body, r) ← r.take length
      let known := id ≤ maxDatagramFrameSizeID
      if known ∧ id ∈ seen then none
      else
        let out ← decodeOne out id body fromServer
        decodeLoop fromServer fuel (if known then id :: seen else seen) out r

/-- Malformed or repeated parameters give `none`. -/
def decode (p : Bytes) (fromServer : Bool) : Option QUICTransportParameters :=
  decodeLoop fromServer (p.length + 1) [] {} ⟨p, 0⟩

/-- The limits on data that parameters carry are varints. -/
structure Bounded (p : QUICTransportParameters) : Prop where
  initialMaxData : p.initialMaxData < 2 ^ 62
  initialMaxStreamDataBidiLocal : p.initialMaxStreamDataBidiLocal < 2 ^ 62
  initialMaxStreamDataBidiRemote : p.initialMaxStreamDataBidiRemote < 2 ^ 62
  initialMaxStreamDataUni : p.initialMaxStreamDataUni < 2 ^ 62

theorem readInt_lt {body : Bytes} {check : Nat → Bool} {x : Nat} (read : readInt body check = some x) : x < 2 ^ 62 := by
  unfold readInt at read
  cases plain : (⟨body, 0⟩ : QUICReader).varint with
  | none => simp [plain] at read
  | some pair =>
    obtain ⟨value, later⟩ := pair
    simp only [plain, bind_eq_bind, bind_some] at read
    split_ifs at read
    simp only [Option.some.injEq] at read
    subst read
    exact QUICReader.varint_lt plain

theorem decodeOne_bounded {out result : QUICTransportParameters} {id : Nat} {body : Bytes}
    {fromServer : Bool} (bounded : out.Bounded)
    (decoded : decodeOne out id body fromServer = some result) : result.Bounded := by
  unfold decodeOne at decoded
  split at decoded
  all_goals (try simp only [map_eq_some_iff] at decoded)
  all_goals (try obtain ⟨x, read, rfl⟩ := decoded)
  all_goals (try split_ifs at decoded)
  all_goals (try simp only [map_eq_some_iff, Option.some.injEq] at decoded)
  all_goals (try obtain ⟨x, -, rfl⟩ := decoded)
  all_goals first
    | exact ⟨bounded.1, bounded.2, bounded.3, bounded.4⟩
    | exact ⟨readInt_lt read, bounded.2, bounded.3, bounded.4⟩
    | exact ⟨bounded.1, readInt_lt read, bounded.3, bounded.4⟩
    | exact ⟨bounded.1, bounded.2, readInt_lt read, bounded.4⟩
    | exact ⟨bounded.1, bounded.2, bounded.3, readInt_lt read⟩

theorem decodeLoop_bounded (fromServer : Bool) (fuel : Nat) (seen : List Nat)
    (out result : QUICTransportParameters) (r : QUICReader) (bounded : out.Bounded)
    (decoded : decodeLoop fromServer fuel seen out r = some result) : result.Bounded := by
  induction fuel generalizing seen out r with
  | zero =>
    simp only [decodeLoop, Option.some.injEq] at decoded
    exact decoded ▸ bounded
  | succ fuel ih =>
    simp only [decodeLoop] at decoded
    split_ifs at decoded with empty
    · simp only [Option.some.injEq] at decoded
      exact decoded ▸ bounded
    simp only [bind_eq_bind, bind_eq_some_iff] at decoded
    obtain ⟨⟨id, r₁⟩, -, ⟨length, r₂⟩, -, ⟨body, r₃⟩, -, rest⟩ := decoded
    split_ifs at rest with repeated
    all_goals
      simp only [bind_eq_some_iff] at rest
      obtain ⟨next, one, more⟩ := rest
      exact ih _ _ _ (decodeOne_bounded bounded one) more

theorem decode_bounded {p : Bytes} {fromServer : Bool} {result : QUICTransportParameters}
    (decoded : decode p fromServer = some result) : result.Bounded :=
  decodeLoop_bounded fromServer _ _ _ _ _ (by constructor <;> decide) decoded

end QUICTransportParameters
end AvianCore.Quic
