import AvianCore.Quic.Packet

/-!
Packet protection. The cryptographic primitives come from a library and are
parameters here, together with the little the transport relies on: the lengths of what
they return.
-/

namespace AvianCore.Quic
open QUICVersion

inductive QUICCipher where
  | aes128GCMSHA256 | aes256GCMSHA384 | chacha20Poly1305SHA256
  deriving DecidableEq, Repr

inductive HashAlgorithm where
  | sha256 | sha384
  deriving DecidableEq, Repr

namespace QUICCipher

def rawValue : QUICCipher → Nat
  | aes128GCMSHA256 => 0x1301
  | aes256GCMSHA384 => 0x1302
  | chacha20Poly1305SHA256 => 0x1303

def hash (cipher : QUICCipher) : HashAlgorithm := if cipher = aes256GCMSHA384 then .sha384 else .sha256

def hashLength (cipher : QUICCipher) : Nat := if cipher = aes256GCMSHA384 then 48 else 32

def keyLength (cipher : QUICCipher) : Nat := if cipher = aes128GCMSHA256 then 16 else 32

end QUICCipher

def quicAEADTagLength : Nat := 16
def quicHPSampleLength : Nat := 16

/-- A keyed AEAD context, and a keyed header protection context. -/
structure Aead where
  cipher : QUICCipher
  key : Bytes
  deriving DecidableEq, Repr

structure HeaderProtection where
  cipher : QUICCipher
  key : Bytes
  deriving DecidableEq, Repr

inductive KeyExchangeGroup where
  | x25519 | p256
  deriving DecidableEq, Repr

/-- The primitives of `avian_crypto.c`, as one connection sees them: a call that may fail is an
`Option`, and the random bytes drawn for the handshake are part of the environment. A
certificate and its key are named by their position in the server's configuration. -/
structure Primitives where
  hkdfExtract : HashAlgorithm → Bytes → Bytes → Option Bytes
  hkdfExpand : HashAlgorithm → Bytes → Bytes → Nat → Option Bytes
  hash : HashAlgorithm → Bytes → Option Bytes
  hmac : HashAlgorithm → Bytes → Bytes → Option Bytes
  aeadNew : QUICCipher → Bytes → Bool
  aeadSeal : Aead → Bytes → Bytes → Bytes → Option Bytes
  aeadOpen : Aead → Bytes → Bytes → Bytes → Option Bytes
  hpNew : QUICCipher → Bytes → Bool
  hpMask : HeaderProtection → Bytes → Option Bytes
  serverRandom : Option Bytes
  kexPublic : KeyExchangeGroup → Option Bytes
  kexDerive : KeyExchangeGroup → Bytes → Option Bytes
  certkeyMatches : Nat → Bytes → Bool
  certkeySchemes : Nat → List Nat
  certkeyChain : Nat → List Bytes
  certkeySign : Nat → Nat → Bytes → Option Bytes
  /-- Sealing adds the tag and nothing else. -/
  aeadSeal_length : ∀ aead nonce header plaintext ciphertext,
    aeadSeal aead nonce header plaintext = some ciphertext → ciphertext.length = plaintext.length + 16

def zeros (n : Nat) : Bytes := List.replicate n 0

/-- Primitives that hide nothing: ciphertexts are plaintexts with an empty tag. With these a run
can be evaluated. -/
def Primitives.transparent : Primitives where
  hkdfExtract hash _ _ := some (zeros (if hash = .sha256 then 32 else 48))
  hkdfExpand _ _ _ n := some (zeros n)
  hash hash _ := some (zeros (if hash = .sha256 then 32 else 48))
  hmac hash _ _ := some (zeros (if hash = .sha256 then 32 else 48))
  aeadNew _ _ := true
  aeadSeal _ _ _ plaintext := some (plaintext ++ zeros 16)
  aeadOpen _ _ _ ciphertext := some (ciphertext.take (ciphertext.length - 16))
  hpNew _ _ := true
  hpMask _ _ := some (zeros 5)
  serverRandom := some (zeros 32)
  kexPublic _ := some [0]
  kexDerive _ _ := some [0]
  certkeyMatches _ _ := false
  certkeySchemes _ := [0x0403]
  certkeyChain _ := [[0]]
  certkeySign _ _ _ := some [0]
  aeadSeal_length := by
    intro _ _ _ plaintext ciphertext sealed
    simp only [Option.some.injEq] at sealed
    simp [← sealed, zeros]

section
variable (P : Primitives)

/-- HKDF-Expand-Label of TLS 1.3. -/
def quicExpandLabel (hash : HashAlgorithm) (secret : Bytes) (label : String) (context : Bytes)
    (outLen : Nat) : Option Bytes :=
  let label := ("tls13 " ++ label).toUTF8.toList
  let info := quicWriteUInt16BE outLen ++ UInt8.ofNat label.length :: label
    ++ UInt8.ofNat context.length :: context
  P.hkdfExpand hash secret info outLen

/-- One AEAD generation: the key, the split IV and the secret it came from. -/
structure QUICKeys where
  aead : Option Aead := none
  ivHi : Nat := 0
  ivLo : Nat := 0
  secret : Bytes := []
  cipher : QUICCipher := .aes128GCMSHA256
  deriving DecidableEq, Repr

namespace QUICKeys

def isValid (keys : QUICKeys) : Bool := keys.aead.isSome

def derive (secret : Bytes) (cipher : QUICCipher) (version : Nat) : Option QUICKeys := do
  let v2 := version = v2
  let key ← quicExpandLabel P cipher.hash secret (if v2 then "quicv2 key" else "quic key") []
    cipher.keyLength
  let iv ← quicExpandLabel P cipher.hash secret (if v2 then "quicv2 iv" else "quic iv") [] 12
  if P.aeadNew cipher key then
    some {
      aead := some ⟨cipher, key⟩
      ivHi := bigEndian 0 (iv.take 4)
      ivLo := bigEndian 0 ((iv.drop 4).take 8)
      secret := secret
      cipher := cipher }
  else none

/-- The generation after this one. Header protection is not part of it. -/
def nextGeneration (keys : QUICKeys) (version : Nat) : Option QUICKeys := do
  if keys.secret.isEmpty then none
  else
    let label := if version = v2 then "quicv2 ku" else "quic ku"
    let next ← quicExpandLabel P keys.cipher.hash keys.secret label [] keys.secret.length
    derive P next keys.cipher version

def nonce (keys : QUICKeys) (packetNumber : Nat) : Bytes :=
  quicWriteUInt32BE keys.ivHi ++ quicWriteUInt64BE (keys.ivLo ^^^ packetNumber)

end QUICKeys

structure QUICHeaderKey where
  hp : Option HeaderProtection := none
  deriving DecidableEq, Repr

namespace QUICHeaderKey

def isValid (key : QUICHeaderKey) : Bool := key.hp.isSome

def derive (secret : Bytes) (cipher : QUICCipher) (version : Nat) : Option QUICHeaderKey := do
  let label := if version = v2 then "quicv2 hp" else "quic hp"
  let key ← quicExpandLabel P cipher.hash secret label [] cipher.keyLength
  if P.hpNew cipher key then some ⟨some ⟨cipher, key⟩⟩ else none

def mask (key : QUICHeaderKey) (sample : Bytes) : Option Bytes := do
  let hp ← key.hp
  let mask ← P.hpMask hp sample
  some (mask.take 5)

end QUICHeaderKey

structure QUICDirection where
  header : QUICHeaderKey := {}
  keys : QUICKeys := {}
  deriving DecidableEq, Repr

def QUICDirection.isValid (direction : QUICDirection) : Bool := direction.keys.isValid && direction.header.isValid

structure QUICKeyPair where
  send : QUICDirection := {}
  receive : QUICDirection := {}
  deriving DecidableEq, Repr

def quicDirection (secret : Bytes) (cipher : QUICCipher) (version : Nat) :
    Option QUICDirection := do
  let keys ← QUICKeys.derive P secret cipher version
  let header ← QUICHeaderKey.derive P secret cipher version
  some { keys := keys, header := header }

def initialSaltV1 : Bytes :=
  [0x38, 0x76, 0x2c, 0xf7, 0xf5, 0x59, 0x34, 0xb3, 0x4d, 0x17,
    0x9a, 0xe6, 0xa4, 0xc8, 0x0c, 0xad, 0xcc, 0xbb, 0x7f, 0x0a]

def initialSaltV2 : Bytes :=
  [0x0d, 0xed, 0xe3, 0xde, 0xf7, 0x00, 0xa6, 0xdb, 0x81, 0x93,
    0x81, 0xbe, 0x6e, 0x26, 0x9d, 0xcb, 0xf9, 0xbd, 0x2e, 0xd9]

def quicInitialKeys (destinationCID : QUICConnectionID) (version : Nat) : Option QUICKeyPair := do
  let salt := if version = v2 then initialSaltV2 else initialSaltV1
  let initialSecret ← P.hkdfExtract .sha256 salt destinationCID.bytes
  let clientSecret ← quicExpandLabel P .sha256 initialSecret "client in" [] 32
  let serverSecret ← quicExpandLabel P .sha256 initialSecret "server in" [] 32
  let send ← quicDirection P serverSecret .aes128GCMSHA256 version
  let receive ← quicDirection P clientSecret .aes128GCMSHA256 version
  some { send := send, receive := receive }

namespace QUICProtect

def writeAt (bytes : Bytes) (start : Nat) (new : Bytes) : Bytes :=
  bytes.take start ++ new ++ bytes.drop (start + new.length)

def xorAt (bytes : Bytes) (start : Nat) (mask : Bytes) : Bytes :=
  bytes.take start ++ List.zipWith (· ^^^ ·) (bytes.drop start) mask
    ++ bytes.drop (start + mask.length)

def protectedBits (first : UInt8) : UInt8 := if first &&& 0x80 ≠ 0 then 0x0F else 0x1F

def packetNumberBytes (packetNumber pnLength : Nat) : Bytes :=
  (List.range pnLength).map fun i => byteAt packetNumber (8 * (pnLength - 1 - i))

/-- Seals a packet laid out in the clear and masks its header. The result is the protected
packet. -/
def «seal» (packet : Bytes) (pnOffset pnLength payloadLength packetNumber : Nat)
    (keys : QUICKeys) (header : QUICHeaderKey) : Option Bytes := do
  let aead ← keys.aead
  let headerLength := pnOffset + pnLength
  let packet := writeAt packet pnOffset (packetNumberBytes packetNumber pnLength)
  let ciphertext ← P.aeadSeal aead (keys.nonce packetNumber) (packet.take headerLength)
    ((packet.drop headerLength).take payloadLength)
  let sampleOffset := pnOffset + 4
  if headerLength + ciphertext.length < sampleOffset + quicHPSampleLength then none
  else
    let sealed := packet.take headerLength ++ ciphertext
    let mask ← header.mask P ((sealed.drop sampleOffset).take quicHPSampleLength)
    let bits := protectedBits (sealed.headD 0)
    let sealed := xorAt sealed pnOffset ((mask.drop 1).take pnLength)
    some (xorAt sealed 0 [mask.headD 0 &&& bits])

structure Opened where
  packetNumber : Nat
  payload : Bytes
  keyPhase : Bool
  pnLength : Nat
  deriving DecidableEq, Repr

/-- A packet with its header protection removed; `packet` is its bytes after that. -/
structure Unprotected where
  packetNumber : Nat
  pnLength : Nat
  keyPhase : Bool
  headerLength : Nat
  packet : Bytes
  deriving DecidableEq, Repr

def unprotect (packet : Bytes) (pnOffset «end» : Nat) (largestReceived : Int)
    (header : QUICHeaderKey) : Option Unprotected := do
  let sampleOffset := pnOffset + 4
  if «end» < sampleOffset + quicHPSampleLength then none
  else
    let mask ← header.mask P ((packet.drop sampleOffset).take quicHPSampleLength)
    let original := packet.headD 0
    let isLong := original &&& 0x80 ≠ 0
    let first := original ^^^ (mask.headD 0 &&& protectedBits original)
    let pnLength := (first &&& 0x03).toNat + 1
    let keyPhase := !isLong && (first &&& 0x04 != 0)
    let packet := xorAt packet pnOffset ((mask.drop 1).take pnLength)
    let truncated := bigEndian 0 ((packet.drop pnOffset).take pnLength)
    if «end» < pnOffset + pnLength + quicAEADTagLength then none
    else some {
      packetNumber := quicDecodePacketNumber largestReceived truncated (pnLength * 8)
      pnLength := pnLength
      keyPhase := keyPhase
      headerLength := pnOffset + pnLength
      packet := writeAt packet 0 [first] }

def openBody (un : Unprotected) («end» : Nat) (keys : QUICKeys) : Option Opened := do
  let aead ← keys.aead
  let payload ← P.aeadOpen aead (keys.nonce un.packetNumber) (un.packet.take un.headerLength)
    ((un.packet.take «end»).drop un.headerLength)
  some {
    packetNumber := un.packetNumber
    payload := payload
    keyPhase := un.keyPhase
    pnLength := un.pnLength }

def «open» (packet : Bytes) (pnOffset «end» : Nat) (largestReceived : Int) (keys : QUICKeys)
    (header : QUICHeaderKey) : Option Opened := do
  let un ← unprotect P packet pnOffset «end» largestReceived header
  openBody P un «end» keys

end QUICProtect
end
end AvianCore.Quic
