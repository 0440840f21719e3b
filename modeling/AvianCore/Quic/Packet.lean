import AvianCore.Quic.Frame

/-!
Packet headers as far as they can be read without keys, and the truncation of
packet numbers.
-/

namespace AvianCore.Quic

namespace QUICVersion

def v2 : Nat := 0x6b3343cf
def negotiation : Nat := 0x00000000

end QUICVersion

def quicMaxCIDLength : Nat := 20

theorem nil_length_le : ([] : Bytes).length ≤ quicMaxCIDLength := Nat.zero_le _

/-- A connection ID carries the bound that its fallible initialiser checks. -/
structure QUICConnectionID where
  bytes : Bytes := []
  bounded : bytes.length ≤ quicMaxCIDLength := by exact nil_length_le
  deriving DecidableEq, Repr

namespace QUICConnectionID

def ofBytes (bytes : Bytes) : Option QUICConnectionID :=
  if bounded : bytes.length ≤ quicMaxCIDLength then some ⟨bytes, bounded⟩ else none

def length (cid : QUICConnectionID) : Nat := cid.bytes.length

end QUICConnectionID

inductive QUICPacketType where
  | initial | zeroRTT | handshake | retry | oneRTT | versionNegotiation
  deriving DecidableEq, Repr

/-- Which keys protect a packet, and so which packet number space it is in. -/
inductive QUICLevel where
  | initial | handshake | application
  deriving DecidableEq, Repr

/-- The three-element arrays that are indexed by level. -/
structure PerLevel (α : Type) where
  initial : α
  handshake : α
  application : α
  deriving DecidableEq, Repr

namespace PerLevel
variable {α : Type}

def repeating (value : α) : PerLevel α := ⟨value, value, value⟩

def get (array : PerLevel α) : QUICLevel → α
  | .initial => array.initial
  | .handshake => array.handshake
  | .application => array.application

def set (array : PerLevel α) (level : QUICLevel) (value : α) : PerLevel α :=
  match level with
  | .initial => { array with initial := value }
  | .handshake => { array with handshake := value }
  | .application => { array with application := value }

def modify (array : PerLevel α) (level : QUICLevel) (change : α → α) : PerLevel α :=
  array.set level (change (array.get level))

def map {β : Type} (array : PerLevel α) (f : α → β) : PerLevel β :=
  ⟨f array.initial, f array.handshake, f array.application⟩

variable (array : PerLevel α)

@[simp] theorem get_map {β : Type} (f : α → β) (level : QUICLevel) : (array.map f).get level = f (array.get level) := by
  cases level <;> rfl

theorem map_set {β : Type} (f : α → β) (level : QUICLevel) (value : α) :
    (array.set level value).map f = (array.map f).set level (f value) := by
  cases level <;> rfl

@[simp] theorem get_set_self (level : QUICLevel) (value : α) : (array.set level value).get level = value := by
  cases level <;> rfl

theorem get_set_ne {level other : QUICLevel} (differs : other ≠ level) (value : α) :
    (array.set level value).get other = array.get other := by
  cases level <;> cases other <;> first | rfl | exact absurd rfl differs

theorem get_set (level other : QUICLevel) (value : α) :
    (array.set level value).get other = if other = level then value else array.get other := by
  cases level <;> cases other <;> rfl

@[simp] theorem set_get (level : QUICLevel) : array.set level (array.get level) = array := by cases level <;> rfl

end PerLevel

structure QUICPacketHeader where
  type : QUICPacketType := .oneRTT
  version : Nat := 0
  dcid : QUICConnectionID := {}
  scid : QUICConnectionID := {}
  token : Bytes := []
  pnOffset : Nat := 0
  «end» : Nat := 0
  isValid : Bool := false
  deriving DecidableEq, Repr

def QUICPacketHeader.isLong (h : QUICPacketHeader) : Bool := h.type != .oneRTT

namespace QUICPacket

def minimumInitialSize : Nat := 1200
def defaultMaxDatagramSize : Nat := 1200

/-- The long-header types, which version 2 renumbered. -/
def longType (version raw : Nat) : QUICPacketType :=
  if version = QUICVersion.v2 then
    match raw with
    | 0 => .retry
    | 1 => .initial
    | 2 => .zeroRTT
    | _ => .handshake
  else
    match raw with
    | 0 => .initial
    | 1 => .zeroRTT
    | 2 => .handshake
    | _ => .retry

def readCID (r : QUICReader) : Option (QUICConnectionID × QUICReader) := do
  let (length, r) ← r.byte
  if quicMaxCIDLength < length.toNat then none
  else
    let (bytes, r) ← r.take length.toNat
    let cid ← QUICConnectionID.ofBytes bytes
    some (cid, r)

def parseLong (h : QUICPacketHeader) (first : UInt8) (n : Nat) (r : QUICReader) : QUICPacketHeader :=
  if h.version = QUICVersion.negotiation then
    { h with type := .versionNegotiation, «end» := n, isValid := true }
  else if first &&& 0x40 = 0 then h
  else
    let type := longType h.version ((first >>> 4) &&& 0x03).toNat
    let h := { h with type := type }
    if type = .retry then { h with «end» := n, isValid := true }
    else
      let afterToken : Option (Bytes × QUICReader) :=
        if type = .initial then do
          let (tokenLen, r) ← r.varintAsInt
          r.take tokenLen
        else some ([], r)
      match afterToken with
      | none => h
      | some (token, r) =>
        let h := { h with token := token }
        match r.varintAsInt with
        | none => h
        | some (length, r) =>
          if r.remaining < length then h
          else { h with pnOffset := r.offset, «end» := r.offset + length, isValid := true }

def parseHeader (p : Bytes) (localCIDLength : Nat) : QUICPacketHeader :=
  match p with
  | [] => {}
  | first :: _ =>
    if first &&& 0x80 = 0 then
      if first &&& 0x40 = 0 then {}
      else if p.length < 1 + localCIDLength then {}
      else
        match QUICConnectionID.ofBytes ((p.drop 1).take localCIDLength) with
        | none => {}
        | some dcid =>
          { dcid := dcid, pnOffset := 1 + localCIDLength, «end» := p.length, isValid := true }
    else
      let r : QUICReader := (⟨p, 0⟩ : QUICReader).advance 1
      match r.uint32 with
      | none => {}
      | some (version, r) =>
        let h : QUICPacketHeader := { version := version }
        let cids : Option (QUICConnectionID × QUICConnectionID × QUICReader) := do
          let (dcid, r) ← readCID r
          let (scid, r) ← readCID r
          some (dcid, scid, r)
        match cids with
        | none => h
        | some (dcid, scid, r) =>
          parseLong { h with dcid := dcid, scid := scid } first p.length r

end QUICPacket

def quicPacketNumberLength (full : Nat) (largestAcked : Option Nat) : Nat :=
  let range :=
    match largestAcked with
    | some acked => subWrapping full acked * 2 % 2 ^ 64
    | none => addWrapping full 1 * 2 % 2 ^ 64
  if range < 2 ^ 8 then 1
  else if range < 2 ^ 16 then 2
  else if range < 2 ^ 24 then 3
  else 4

/-- RFC 9000 appendix A. The largest received number is -1 before any packet, so the
expected number is never negative, and clearing its low bits is a division. -/
def quicDecodePacketNumber (largestReceived : Int) (truncated bits : Nat) : Nat :=
  let expected := (largestReceived + 1).toNat
  let window := 2 ^ bits
  let halfWindow := window / 2
  let candidate := expected / window * window + truncated
  if candidate + halfWindow ≤ expected ∧ candidate + window < 2 ^ 62 then candidate + window
  else if expected + halfWindow < candidate ∧ window ≤ candidate then candidate - window
  else candidate

end AvianCore.Quic
