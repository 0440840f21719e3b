import AvianCore.Quic.Crypto
import AvianCore.Quic.TransportParameters

/-!
The server side of the TLS 1.3 handshake without its record layer. The
transcript is kept as the bytes hashed so far.
-/

namespace AvianCore.Quic

namespace TLSAlert

def unexpectedMessage : Nat := 10
def handshakeFailure : Nat := 40
def illegalParameter : Nat := 47
def decodeError : Nat := 50
def decryptError : Nat := 51
def protocolVersion : Nat := 70
def internalError : Nat := 80
def missingExtension : Nat := 109
def noApplicationProtocol : Nat := 120

end TLSAlert

namespace HandshakeType

def clientHello : UInt8 := 1
def serverHello : UInt8 := 2
def encryptedExtensions : UInt8 := 8
def certificate : UInt8 := 11
def certificateVerify : UInt8 := 15
def finished : UInt8 := 20

end HandshakeType

namespace ExtensionType

def serverName : Nat := 0
def signatureAlgorithms : Nat := 13
def alpn : Nat := 16
def supportedVersions : Nat := 43
def keyShare : Nat := 51
def quicTransportParameters : Nat := 57

end ExtensionType

namespace NamedGroup

def x25519 : Nat := 0x001d
def secp256r1 : Nat := 0x0017

end NamedGroup

/-- A traffic secret pair that the connection turns into packet keys. -/
structure Secrets where
  level : QUICLevel
  client : Bytes
  server : Bytes
  cipher : QUICCipher
  deriving DecidableEq, Repr

inductive HandshakeState where
  | waitingClientHello | waitingFinished | complete | failed
  deriving DecidableEq, Repr

structure TLSServerHandshake where
  certKeys : List Nat
  certKey : Nat
  alpnPreference : List Bytes
  localParameters : QUICTransportParameters
  quicVersion : Nat
  state : HandshakeState := .waitingClientHello
  alert : Option Nat := none
  cipher : QUICCipher := .aes128GCMSHA256
  selectedALPN : Bytes := []
  serverName : Bytes := []
  peerParameters : QUICTransportParameters := {}
  sawTransportParameters : Bool := false
  initialOut : Bytes := []
  handshakeOut : Bytes := []
  pendingSecrets : List Secrets := []
  transcript : Bytes := []
  kex : Option KeyExchangeGroup := none
  handshakeSecret : Bytes := []
  clientHandshakeSecret : Bytes := []
  serverHandshakeSecret : Bytes := []
  incoming : PerLevel Bytes := PerLevel.repeating []
  deriving DecidableEq, Repr

/-- A body behind its own length in `width` bytes. -/
def lengthPrefixed (width : Nat) (body : Bytes) : Bytes :=
  (List.range width).map (fun i => byteAt body.length (8 * (width - 1 - i))) ++ body

/-- What the extensions of a ClientHello have said so far. -/
structure HelloExtensions where
  offeredVersions13 : Bool := false
  peerKeyShare : Option (Nat × Bytes) := none
  signatureSchemes : List Nat := []
  alpnOffers : List Bytes := []
  transportParametersSeen : Bool := false
  serverName : Bytes := []
  peerParameters : QUICTransportParameters := {}
  deriving DecidableEq, Repr

namespace HelloExtensions

def readVersions : Nat → Bool → QUICReader → Option Bool
  | 0, offered, _ => some offered
  | count + 1, offered, b => do
    let (v, b) ← b.uint16
    readVersions count (offered || v == 0x0304) b

/-- The first share of a group the server has, in the client's order. -/
def readShares : Nat → Option (Nat × Bytes) → QUICReader → Option (Option (Nat × Bytes))
  | 0, found, _ => some found
  | fuel + 1, found, s =>
    if s.isEmpty then some found
    else do
      let (group, s) ← s.uint16
      let (keyLength, s) ← s.uint16
      let (key, s) ← s.take keyLength
      let acceptable := group = NamedGroup.x25519 ∨ group = NamedGroup.secp256r1
      readShares fuel (if found.isNone ∧ acceptable then some (group, key) else found) s

def readSchemes : Nat → QUICReader → List Nat
  | 0, _ => []
  | fuel + 1, s =>
    match s.uint16 with
    | none => []
    | some (scheme, s) => scheme :: readSchemes fuel s

def readNames : Nat → QUICReader → Option (List Bytes)
  | 0, _ => some []
  | fuel + 1, s =>
    if s.isEmpty then some []
    else do
      let (nameLength, s) ← s.byte
      if nameLength = 0 then none
      else
        let (name, s) ← s.take nameLength.toNat
        let names ← readNames fuel s
        some (name :: names)

/-- Notes what an extension said, or raises an alert when it cannot be decoded. -/
def noted {α : Type} (value : Option α) (note : α → HelloExtensions) : Except Nat HelloExtensions :=
  match value with
  | some value => .ok (note value)
  | none => .error TLSAlert.decodeError

def readServerName (list : Bytes) : Option Bytes := do
  let (nameType, s) ← (⟨list, 0⟩ : QUICReader).byte
  if nameType ≠ 0 then none
  else
    let (nameLength, s) ← s.uint16
    let (name, _) ← s.take nameLength
    some name

def readList (b : QUICReader) : Option Bytes := do
  let (listLength, b) ← b.uint16
  let (list, _) ← b.take listLength
  some list

def read (e : HelloExtensions) (extType : Nat) (body : Bytes) : Except Nat HelloExtensions :=
  let b : QUICReader := ⟨body, 0⟩
  if extType = ExtensionType.supportedVersions then
    let offered : Option Bool := do
      let (listLength, b) ← b.byte
      if listLength.toNat % 2 ≠ 0 then none
      else readVersions (listLength.toNat / 2) e.offeredVersions13 b
    noted offered fun offered => { e with offeredVersions13 := offered }
  else if extType = ExtensionType.keyShare then
    let found := (readList b).bind fun shares =>
      readShares (shares.length + 1) e.peerKeyShare ⟨shares, 0⟩
    noted found fun found => { e with peerKeyShare := found }
  else if extType = ExtensionType.signatureAlgorithms then
    let list : Option Bytes := do
      let (listLength, b) ← b.uint16
      if listLength % 2 ≠ 0 then none
      else
        let (list, _) ← b.take listLength
        some list
    noted list fun list => { e with
      signatureSchemes := e.signatureSchemes ++ readSchemes list.length ⟨list, 0⟩ }
  else if extType = ExtensionType.alpn then
    let names := (readList b).bind fun list => readNames (list.length + 1) ⟨list, 0⟩
    noted names fun names => { e with alpnOffers := e.alpnOffers ++ names }
  else if extType = ExtensionType.serverName then
    noted (readList b) fun list => { e with
      serverName := (readServerName list).getD e.serverName }
  else if extType = ExtensionType.quicTransportParameters then
    match QUICTransportParameters.decode body false with
    | none => .error TLSAlert.illegalParameter
    | some parsed => .ok { e with peerParameters := parsed, transportParametersSeen := true }
  else .ok e

/-- The extension block. What was read before a failure has already taken effect. -/
def readAll : Nat → HelloExtensions → QUICReader → HelloExtensions × Option Nat
  | 0, e, _ => (e, none)
  | fuel + 1, e, r =>
    if r.isEmpty then (e, none)
    else
      let next : Option (Nat × Bytes × QUICReader) := do
        let (extType, r) ← r.uint16
        let (extLength, r) ← r.uint16
        let (body, r) ← r.take extLength
        some (extType, body, r)
      match next with
      | none => (e, some TLSAlert.decodeError)
      | some (extType, body, r) =>
        match e.read extType body with
        | .error alert => (e, some alert)
        | .ok e => readAll fuel e r

end HelloExtensions

/-- The fixed part of a ClientHello. -/
structure ClientHello where
  sessionID : Bytes
  suites : Bytes
  extensions : Bytes
  deriving DecidableEq, Repr

def ClientHello.parse (message : Bytes) : Except Nat ClientHello :=
  let start : Option (Bytes × Bytes × Bytes × QUICReader) := do
    let r ← (⟨message, 0⟩ : QUICReader).skip 4
    let (_, r) ← r.uint16
    let (_, r) ← r.take 32
    let (sessionIDLength, r) ← r.byte
    if 32 < sessionIDLength.toNat then none
    else
      let (sessionID, r) ← r.take sessionIDLength.toNat
      let (suitesLength, r) ← r.uint16
      if suitesLength % 2 ≠ 0 then none
      else
        let (suites, r) ← r.take suitesLength
        let (compressionLength, r) ← r.byte
        if compressionLength.toNat < 1 then none
        else
          let (compression, r) ← r.take compressionLength.toNat
          some (sessionID, suites, compression, r)
  match start with
  | none => .error TLSAlert.decodeError
  | some (sessionID, suites, compression, r) =>
    -- TLS 1.3 forbids compression
    if compression.any (· != 0) then .error TLSAlert.illegalParameter
    else
      let extensions : Option Bytes := do
        let (extensionsLength, r) ← r.uint16
        let (extensions, _) ← r.take extensionsLength
        some extensions
      match extensions with
      | none => .error TLSAlert.decodeError
      | some extensions => .ok ⟨sessionID, suites, extensions⟩

namespace TLSServerHandshake

def fail (tls : TLSServerHandshake) (code : Nat) : TLSServerHandshake :=
  { tls with alert := some (tls.alert.getD code), state := .failed }

def takePendingSecrets (tls : TLSServerHandshake) : List Secrets × TLSServerHandshake :=
  (tls.pendingSecrets, { tls with pendingSecrets := [] })

section
variable (P : Primitives)

def choose (keys : List Nat) (name : Bytes) : Nat :=
  if keys.length ≤ 1 ∨ name.isEmpty then keys.headD 0
  else (keys.find? fun key => P.certkeyMatches key name).getD (keys.headD 0)

def hasSuite (value : Nat) : Bytes → Bool
  | a :: b :: rest => a.toNat * 256 + b.toNat == value || hasSuite value rest
  | _ => false

def chooseCipherSuite (suites : Bytes) : Option QUICCipher :=
  [QUICCipher.aes128GCMSHA256, .chacha20Poly1305SHA256, .aes256GCMSHA384].find?
    fun candidate => hasSuite candidate.rawValue suites

def chooseSignatureScheme (tls : TLSServerHandshake) (offered : List Nat) : Option Nat :=
  ((P.certkeySchemes tls.certKey).take 8).find? fun scheme => offered.contains scheme

def chooseALPN (tls : TLSServerHandshake) (offered : List Bytes) : Option Bytes :=
  tls.alpnPreference.find? fun candidate => offered.contains candidate

def expand (tls : TLSServerHandshake) (secret : Bytes) (label : String) (context : Bytes)
    (length : Nat) : Option Bytes :=
  quicExpandLabel P tls.cipher.hash secret label context length

def extract (tls : TLSServerHandshake) (salt ikm : Bytes) : Option Bytes := do
  let out ← P.hkdfExtract tls.cipher.hash salt ikm
  if out.length = tls.cipher.hashLength then some out else none

def nonemptyDigest (digest : Option Bytes) : Option Bytes := do
  let digest ← digest
  if digest.isEmpty then none else some digest

def transcriptHash (tls : TLSServerHandshake) : Option Bytes := nonemptyDigest (P.hash tls.cipher.hash tls.transcript)

def emptyHash (tls : TLSServerHandshake) : Option Bytes := nonemptyDigest (P.hash tls.cipher.hash [])

def deriveHandshakeSecrets (tls : TLSServerHandshake) (shared : Bytes) :
    Option TLSServerHandshake := do
  let zeros := List.replicate tls.cipher.hashLength 0
  let early ← tls.extract P [] zeros
  let empty ← tls.emptyHash P
  let derived ← tls.expand P early "derived" empty tls.cipher.hashLength
  let handshake ← tls.extract P derived shared
  let hash ← tls.transcriptHash P
  let client ← tls.expand P handshake "c hs traffic" hash tls.cipher.hashLength
  let server ← tls.expand P handshake "s hs traffic" hash tls.cipher.hashLength
  some { tls with
    handshakeSecret := handshake
    clientHandshakeSecret := client
    serverHandshakeSecret := server
    pendingSecrets := tls.pendingSecrets ++ [⟨.handshake, client, server, tls.cipher⟩] }

def deriveApplicationSecrets (tls : TLSServerHandshake) : Option TLSServerHandshake := do
  let zeros := List.replicate tls.cipher.hashLength 0
  let empty ← tls.emptyHash P
  let derived ← tls.expand P tls.handshakeSecret "derived" empty tls.cipher.hashLength
  let master ← tls.extract P derived zeros
  let hash ← tls.transcriptHash P
  let client ← tls.expand P master "c ap traffic" hash tls.cipher.hashLength
  let server ← tls.expand P master "s ap traffic" hash tls.cipher.hashLength
  some { tls with
    pendingSecrets := tls.pendingSecrets ++ [⟨.application, client, server, tls.cipher⟩] }

def finishedValue (tls : TLSServerHandshake) (secret : Bytes) : Option Bytes := do
  let key ← tls.expand P secret "finished" [] tls.cipher.hashLength
  let hash ← tls.transcriptHash P
  let out ← P.hmac tls.cipher.hash key hash
  if out.length = tls.cipher.hashLength then some out else none

/-- A message goes to its level's output and to the transcript together. -/
def emit (tls : TLSServerHandshake) (message : Bytes) (level : QUICLevel) : TLSServerHandshake :=
  let tls := { tls with transcript := tls.transcript ++ message }
  if level = .initial then { tls with initialOut := tls.initialOut ++ message }
  else { tls with handshakeOut := tls.handshakeOut ++ message }

def writeServerHello (tls : TLSServerHandshake) (sessionIDEcho : Bytes) (group : Nat) : TLSServerHandshake :=
  match P.serverRandom, tls.kex.bind P.kexPublic with
  | some random, some publicKey =>
    let extensions :=
      quicWriteUInt16BE ExtensionType.supportedVersions ++ quicWriteUInt16BE 2
        ++ quicWriteUInt16BE 0x0304
        ++ quicWriteUInt16BE ExtensionType.keyShare
        ++ lengthPrefixed 2 (quicWriteUInt16BE group ++ lengthPrefixed 2 publicKey)
    let body := quicWriteUInt16BE 0x0303 ++ random
      ++ UInt8.ofNat sessionIDEcho.length :: sessionIDEcho
      ++ quicWriteUInt16BE tls.cipher.rawValue ++ [0] ++ lengthPrefixed 2 extensions
    tls.emit (HandshakeType.serverHello :: lengthPrefixed 3 body) .initial
  | _, _ => tls.fail TLSAlert.internalError

def encryptedExtensions (tls : TLSServerHandshake) : Bytes :=
  let alpn := if tls.selectedALPN.isEmpty then [] else
    quicWriteUInt16BE ExtensionType.alpn ++ lengthPrefixed 2 (lengthPrefixed 2
      (UInt8.ofNat tls.selectedALPN.length :: tls.selectedALPN))
  let parameters := quicWriteUInt16BE ExtensionType.quicTransportParameters
    ++ lengthPrefixed 2 (tls.localParameters.encode true)
  HandshakeType.encryptedExtensions :: lengthPrefixed 3 (lengthPrefixed 2 (alpn ++ parameters))

def certificateMessage (chain : List Bytes) : Bytes :=
  let entries := chain.flatMap fun der => lengthPrefixed 3 der ++ quicWriteUInt16BE 0
  HandshakeType.certificate :: lengthPrefixed 3 (0 :: lengthPrefixed 3 entries)

def verifyInput (digest : Bytes) : Bytes :=
  List.replicate 64 0x20 ++ "TLS 1.3, server CertificateVerify".toUTF8.toList ++ 0 :: digest

/-- The rest of the server's flight. A failure part-way leaves the messages already emitted. -/
def writeServerFlight (tls : TLSServerHandshake) (scheme : Nat) : TLSServerHandshake × Bool :=
  let tls := tls.emit tls.encryptedExtensions .handshake
  let chain := P.certkeyChain tls.certKey
  if chain.isEmpty ∨ chain.any List.isEmpty then (tls.fail TLSAlert.internalError, false)
  else
    let tls := tls.emit (certificateMessage chain) .handshake
    let signature : Option Bytes := do
      let digest ← tls.transcriptHash P
      let signed ← P.certkeySign tls.certKey scheme (verifyInput digest)
      if signed.isEmpty ∨ 1024 < signed.length then none else some signed
    match signature with
    | none => (tls.fail TLSAlert.internalError, false)
    | some signature =>
      let tls := tls.emit (HandshakeType.certificateVerify ::
        lengthPrefixed 3 (quicWriteUInt16BE scheme ++ lengthPrefixed 2 signature)) .handshake
      match tls.finishedValue P tls.serverHandshakeSecret with
      | none => (tls.fail TLSAlert.internalError, false)
      | some verify =>
        (tls.emit (HandshakeType.finished :: lengthPrefixed 3 verify) .handshake, true)

def kexGroup (group : Nat) : KeyExchangeGroup := if group = NamedGroup.x25519 then .x25519 else .p256

def answerHello (tls : TLSServerHandshake) (sessionID : Bytes) (group scheme : Nat)
    (shared : Bytes) : TLSServerHandshake :=
  let tls := tls.writeServerHello P sessionID group
  if tls.state = .failed then tls
  else
    match tls.deriveHandshakeSecrets P shared with
    | none => tls.fail TLSAlert.internalError
    | some tls =>
      match tls.writeServerFlight P scheme with
      | (tls, false) => tls
      | (tls, true) =>
        match tls.deriveApplicationSecrets P with
        | none => tls.fail TLSAlert.internalError
        | some tls => { tls with state := .waitingFinished }

def negotiate (tls : TLSServerHandshake) (hello : ClientHello) (e : HelloExtensions)
    (message : Bytes) : TLSServerHandshake :=
  if !e.offeredVersions13 then tls.fail TLSAlert.protocolVersion
  else if !e.transportParametersSeen then tls.fail TLSAlert.missingExtension
  else
    let tls := { tls with
      sawTransportParameters := true
      certKey := choose P tls.certKeys tls.serverName }
    match chooseCipherSuite hello.suites with
    | none => tls.fail TLSAlert.handshakeFailure
    | some suite =>
      let tls := { tls with cipher := suite }
      match e.peerKeyShare with
      | none => tls.fail TLSAlert.handshakeFailure
      | some (group, key) =>
        match tls.chooseSignatureScheme P e.signatureSchemes with
        | none => tls.fail TLSAlert.handshakeFailure
        | some scheme =>
          let chosen := tls.chooseALPN e.alpnOffers
          if !e.alpnOffers.isEmpty && chosen.isNone then
            tls.fail TLSAlert.noApplicationProtocol
          else
            let tls := if e.alpnOffers.isEmpty then tls
              else { tls with selectedALPN := chosen.getD [] }
            let tls := { tls with transcript := message, kex := some (kexGroup group) }
            match P.kexDerive (kexGroup group) key with
            | none => tls.fail TLSAlert.handshakeFailure
            | some shared => tls.answerHello P hello.sessionID group scheme shared

def handleClientHello (tls : TLSServerHandshake) (message : Bytes) : TLSServerHandshake :=
  match ClientHello.parse message with
  | .error alert => tls.fail alert
  | .ok hello =>
    let begin : HelloExtensions := { serverName := tls.serverName, peerParameters := tls.peerParameters }
    let (e, alert) := begin.readAll (hello.extensions.length + 1) ⟨hello.extensions, 0⟩
    let tls := { tls with serverName := e.serverName, peerParameters := e.peerParameters }
    match alert with
    | some alert => tls.fail alert
    | none => tls.negotiate P hello e message

def scrubSecrets (tls : TLSServerHandshake) : TLSServerHandshake :=
  { tls with
    handshakeSecret := List.replicate tls.handshakeSecret.length 0
    clientHandshakeSecret := List.replicate tls.clientHandshakeSecret.length 0
    serverHandshakeSecret := List.replicate tls.serverHandshakeSecret.length 0 }

def handleFinished (tls : TLSServerHandshake) (message : Bytes) : TLSServerHandshake :=
  if message.length - 4 ≠ tls.cipher.hashLength then tls.fail TLSAlert.decryptError
  else
    match tls.finishedValue P tls.clientHandshakeSecret with
    | none => tls.fail TLSAlert.decryptError
    | some expected =>
      if expected ≠ message.drop 4 then tls.fail TLSAlert.decryptError
      else scrubSecrets { tls with transcript := tls.transcript ++ message, state := .complete }

/-- One handshake message, or `none` when the level does not hold a whole one. -/
def nextMessage (tls : TLSServerHandshake) (level : QUICLevel) : Option (UInt8 × Bytes) :=
  match tls.incoming.get level with
  | type :: a :: b :: c :: rest =>
    let length := a.toNat * 65536 + b.toNat * 256 + c.toNat
    if rest.length < length then none
    else some (type, type :: a :: b :: c :: rest.take length)
  | _ => none

/-- What a message does to the handshake; `false` when the loop stops there. -/
def handleMessage (tls : TLSServerHandshake) (type : UInt8) (message : Bytes) : TLSServerHandshake × Bool :=
  if type = HandshakeType.clientHello then
    if tls.state ≠ .waitingClientHello then (tls.fail TLSAlert.unexpectedMessage, false)
    else (tls.handleClientHello P message, true)
  else if type = HandshakeType.finished then
    if tls.state ≠ .waitingFinished then (tls.fail TLSAlert.unexpectedMessage, false)
    else (tls.handleFinished P message, true)
  else (tls.fail TLSAlert.unexpectedMessage, false)

/-- The fuel is the number of buffered bytes, of which a message takes at least four. -/
def processMessages : Nat → TLSServerHandshake → QUICLevel → TLSServerHandshake
  | 0, tls, _ => tls
  | fuel + 1, tls, level =>
    if tls.state = .failed then tls
    else
      match tls.nextMessage level with
      | none => tls
      | some (type, message) =>
        match tls.handleMessage P type message with
        | (tls, false) => tls
        | (tls, true) =>
          processMessages fuel
            { tls with incoming := tls.incoming.modify level (List.drop message.length) } level

def receive (tls : TLSServerHandshake) (p : Bytes) (level : QUICLevel) : TLSServerHandshake :=
  if tls.state = .failed ∨ tls.state = .complete then tls
  else
    let tls := { tls with incoming := tls.incoming.modify level (· ++ p) }
    processMessages P (tls.incoming.get level).length tls level

end
end TLSServerHandshake
end AvianCore.Quic
