import AvianCore.Quic.Run

/-!
Key updates of the peer. Every packet of a peer belongs to a key generation, which does not decrease with
the packet number. Its header shows only the parity of the generation, and `openOneRTT` tells from that,
the packet number and the time which keys it is to be opened with.
-/

namespace AvianCore.Quic
open Option QUICKeys List
open QUICProtect (openBody)

/-- A peer that updates its keys: the keys of both directions by generation, none of which fails to be
derived, and the generation of each of its packets. -/
structure Peer (P : Primitives) where
  version : Nat
  receive : Nat → QUICKeys
  send : Nat → QUICKeys
  generation : Nat → Nat
  receive_next : ∀ g, (receive g).nextGeneration P version = some (receive (g + 1))
  send_next : ∀ g, (send g).nextGeneration P version = some (send (g + 1))
  monotone : Monotone generation

namespace QUICConnection
variable {P : Primitives} (peer : Peer P)

/-- The connection has the keys of a generation, the next ones to receive with, and those before. The
packet it counts the generation from is one of it. -/
structure AtGeneration (c : QUICConnection) (g : Nat) : Prop where
  version : c.version = peer.version
  receive : c.keys.application.receive.keys = peer.receive g
  send : c.keys.application.send.keys = peer.send g
  next : c.nextReceiveKeys = peer.receive (g + 1)
  phase : c.currentKeyPhase = g.bodd
  none : g = 0 → c.previousReceiveKeys.isValid = false
  previous : ∀ k, g = k + 1 → c.previousReceiveKeys = peer.receive k
  first : g ≠ 0 → peer.generation c.currentPhaseFirstPacket = g

section
variable (P)

/-- A packet without its header protection, as the connection removes it. -/
def unmasked (c : QUICConnection) (p : Bytes) (header : QUICPacketHeader) : Option QUICProtect.Unprotected :=
  QUICProtect.unprotect P p header.pnOffset header.end c.spaces.application.largestReceived
    c.keys.application.receive.header

def openedUnder (c : QUICConnection) (p : Bytes) (header : QUICPacketHeader) (keys : QUICKeys) :
    Option QUICProtect.Opened :=
  (c.unmasked P p header).bind fun un => openBody P un header.end keys

def Recovers (c : QUICConnection) (p : Bytes) (header : QUICPacketHeader) (number : Nat) : Prop :=
  (c.unmasked P p header).map QUICProtect.Unprotected.packetNumber = some number

end

/-- A packet of the peer with this number: its key phase is the parity of its generation, and with its own
number it opens under the keys of its generation and no others. -/
structure Genuine (c : QUICConnection) (p : Bytes) (header : QUICPacketHeader) (number : Nat) :
    Prop where
  phase : ∀ un, c.unmasked P p header = some un → un.keyPhase = (peer.generation number).bodd
  opens : ∀ g, (c.openedUnder P p header (peer.receive g)).isSome = true ↔
    g = peer.generation number ∧ c.Recovers P p header number

/-- Whether a packet is of a generation that a connection at generation `g` can open. -/
def Expects (c : QUICConnection) (g number nowMs : Nat) : Prop :=
  peer.generation number = g ∨
    (peer.generation number + 1 = g ∧ nowMs < c.previousKeysExpireMs) ∨
    (peer.generation number = g + 1 ∧ c.keyUpdatePermitted = true)

variable {peer} {c c' : QUICConnection} {g : Nat}

theorem openBody_number {un : QUICProtect.Unprotected} {stop : Nat} {keys : QUICKeys}
    {opened : QUICProtect.Opened} (done : openBody P un stop keys = some opened) :
    opened.packetNumber = un.packetNumber ∧ keys.isValid = true := by
  simp only [openBody, bind_eq_bind, bind_eq_some_iff] at done
  obtain ⟨aead, found, payload, _, made⟩ := done
  rw [← Option.some.inj made]
  exact ⟨rfl, isSome_iff_exists.mpr ⟨aead, found⟩⟩

theorem AtGeneration.commit (at_ : c.AtGeneration peer g) {number : Nat}
    (new : peer.generation number = g + 1) (nowMs : Nat) :
    (c.commitKeyUpdate P nowMs number).AtGeneration peer (g + 1) where
  version := at_.version
  receive := at_.next
  send := by
    show (c.keys.application.send.keys.nextGeneration P c.version).getD _ = _
    rw [at_.send, at_.version, peer.send_next]
    rfl
  next := by
    show (c.nextReceiveKeys.nextGeneration P c.version).getD {} = _
    rw [at_.next, at_.version, peer.receive_next]
    rfl
  phase := by
    show (!c.currentKeyPhase) = _
    rw [at_.phase, Nat.bodd_succ]
  none := by
    intro zero
    omega
  previous := by
    intro k same
    have here : g = k := by omega
    rw [← here]
    exact at_.receive
  first := fun _ => new

section
variable {p : Bytes} {header : QUICPacketHeader} {number : Nat} {un : QUICProtect.Unprotected}

theorem openOneRTT_unmasked (shown : c.unmasked P p header = some un) (nowMs : Nat) : c.openOneRTT P p header nowMs =
    if un.keyPhase = c.currentKeyPhase then
      (c, openBody P un header.end c.keys.application.receive.keys)
    else if c.previousReceiveKeys.isValid ∧ nowMs < c.previousKeysExpireMs ∧
        un.packetNumber < c.currentPhaseFirstPacket then
      (c, openBody P un header.end c.previousReceiveKeys)
    else if c.keyUpdatePermitted ∧ c.nextReceiveKeys.isValid then
      (openBody P un header.end c.nextReceiveKeys).elim (c, none)
        fun opened => (c.commitKeyUpdate P nowMs opened.packetNumber, some opened)
    else (c, none) := by
  unfold openOneRTT
  unfold unmasked at shown
  simp only [shown]
  cases openBody P un header.end c.nextReceiveKeys <;> rfl

theorem Genuine.opens_iff (genuine : c.Genuine peer p header number)
    (shown : c.unmasked P p header = some un) (k : Nat) :
    (openBody P un header.end (peer.receive k)).isSome = true ↔
      k = peer.generation number ∧ un.packetNumber = number := by
  have ideal := genuine.opens k
  unfold openedUnder Recovers at ideal
  rw [shown] at ideal
  simpa using ideal

theorem openOneRTT_cases (at_ : c.AtGeneration peer g) (genuine : c.Genuine peer p header number) (nowMs : Nat) :
    c.openOneRTT P p header nowMs = (c, none) ∨ (c.Recovers P p header number ∧ c.Expects peer g number nowMs ∧
        c.openOneRTT P p header nowMs = (if peer.generation number = g + 1 then c.commitKeyUpdate P nowMs number else c,
            c.openedUnder P p header (peer.receive (peer.generation number)))) := by
  cases shown : c.unmasked P p header with
  | none =>
    apply Or.inl
    unfold openOneRTT
    unfold unmasked at shown
    simp only [shown]
  | some un =>
    have recovered : un.packetNumber = number → c.Recovers P p header number := by
      intro same
      unfold Recovers
      rw [shown, map_some, same]
    have own : c.openedUnder P p header (peer.receive (peer.generation number)) =
        openBody P un header.end (peer.receive (peer.generation number)) := by
      unfold openedUnder
      rw [shown, bind_some]
    -- keys of a generation either fail, or they are the packet's own
    have tried : ∀ k, openBody P un header.end (peer.receive k) = none ∨
        k = peer.generation number ∧ un.packetNumber = number := by
      intro k
      cases result : openBody P un header.end (peer.receive k) with
      | none => exact .inl rfl
      | some opened =>
        apply Or.inr
        apply (genuine.opens_iff shown k).mp
        rw [result]
        rfl
    rw [openOneRTT_unmasked shown, own]
    by_cases same : un.keyPhase = c.currentKeyPhase
    · rw [if_pos same, at_.receive]
      rcases tried g with failed | ⟨here, exactly⟩
      · rw [failed]
        exact .inl rfl
      apply Or.inr
      rw [if_neg (by omega), ← here]
      exact ⟨recovered exactly, .inl here.symm, rfl⟩
    rw [if_neg same]
    by_cases before : c.previousReceiveKeys.isValid ∧ nowMs < c.previousKeysExpireMs ∧
        un.packetNumber < c.currentPhaseFirstPacket
    · rw [if_pos before]
      cases g with
      | zero =>
        have blank := at_.none rfl
        cases before.1.symm.trans blank
      | succ k =>
        rw [at_.previous k rfl]
        rcases tried k with failed | ⟨here, exactly⟩
        · rw [failed]
          exact .inl rfl
        apply Or.inr
        rw [if_neg (by omega), ← here]
        exact ⟨recovered exactly, .inr (.inl ⟨by omega, before.2.1⟩), rfl⟩
    rw [if_neg before]
    by_cases allowed : c.keyUpdatePermitted ∧ c.nextReceiveKeys.isValid
    · rw [if_pos allowed, at_.next]
      rcases tried (g + 1) with failed | ⟨here, exactly⟩
      · rw [failed]
        exact .inl rfl
      rw [if_pos here.symm, ← here]
      cases result : openBody P un header.end (peer.receive (g + 1)) with
      | none => exact .inl rfl
      | some opened =>
        apply Or.inr
        rw [← exactly, ← (openBody_number result).1]
        refine ⟨?_, .inr (.inr ⟨?_, allowed.1⟩), rfl⟩
        · rw [(openBody_number result).1, exactly]
          exact recovered exactly
        · rw [(openBody_number result).1, exactly]
          exact here.symm
    · rw [if_neg allowed]
      exact .inl rfl

theorem openOneRTT_isSome (at_ : c.AtGeneration peer g) (genuine : c.Genuine peer p header number)
    {nowMs : Nat} (recovers : c.Recovers P p header number) (expected : c.Expects peer g number nowMs) :
    (c.openOneRTT P p header nowMs).2.isSome = true := by
  unfold Recovers at recovers
  obtain ⟨un, shown, exactly⟩ := map_eq_some_iff.mp recovers
  have phase := genuine.phase un shown
  have opens := (genuine.opens_iff shown (peer.generation number)).mpr ⟨rfl, exactly⟩
  obtain ⟨opened, result⟩ := isSome_iff_exists.mp opens
  have valid := (openBody_number result).2
  rw [openOneRTT_unmasked shown, phase, at_.phase]
  rcases expected with here | ⟨before, early⟩ | ⟨after, permitted⟩
  · rw [here, if_pos rfl, at_.receive, ← here]
    exact opens
  · subst before
    have flipped : (peer.generation number).bodd ≠ (peer.generation number + 1).bodd := by
      rw [Nat.bodd_succ]
      cases (peer.generation number).bodd <;> decide
    -- the first packet of the current generation has a greater number
    have earlier : un.packetNumber < c.currentPhaseFirstPacket := by
      by_contra later
      have order := peer.monotone (not_lt.mp later)
      rw [at_.first (Nat.succ_ne_zero _), exactly] at order
      omega
    rw [if_neg flipped, at_.previous _ rfl, if_pos ⟨valid, early, earlier⟩]
    exact opens
  · have flipped : (peer.generation number).bodd ≠ g.bodd := by
      rw [after, Nat.bodd_succ]
      cases g.bodd <;> decide
    have not : ¬(c.previousReceiveKeys.isValid = true ∧ nowMs < c.previousKeysExpireMs ∧
        un.packetNumber < c.currentPhaseFirstPacket) := by
      rintro ⟨held, -, earlier⟩
      by_cases zero : g = 0
      · rw [at_.none zero] at held
        cases held
      have order := peer.monotone earlier.le
      rw [at_.first zero, exactly] at order
      omega
    rw [after] at result valid
    rw [if_neg flipped, if_neg not, at_.next, if_pos ⟨permitted, valid⟩, result]
    rfl

end

/-- A call of `openOneRTT`, with what came of it. -/
structure Arrival where
  number : Nat
  opened : Bool
  committed : Bool
  deriving DecidableEq, Repr

/-- The call for a packet. The key phase changes when the connection commits to an update. -/
def arrival (P : Primitives) (c : QUICConnection) (p : Bytes) (header : QUICPacketHeader)
    (number nowMs : Nat) : Arrival where
  number := number
  opened := (c.openOneRTT P p header nowMs).2.isSome
  committed := (c.openOneRTT P p header nowMs).1.currentKeyPhase != c.currentKeyPhase

def latest (generation : Nat → Nat) : List Arrival → Nat
  | [] => 0
  | arrival :: earlier =>
    if arrival.opened then max (generation arrival.number) (latest generation earlier)
    else latest generation earlier

def commits (log : List Arrival) : Nat := log.countP Arrival.committed

/-- A change that leaves the keys alone, whatever else it does. -/
structure KeepsKeys (c c' : QUICConnection) : Prop where
  version : c'.version = c.version
  receive : c'.keys.application.receive.keys = c.keys.application.receive.keys
  send : c'.keys.application.send.keys = c.keys.application.send.keys
  next : c'.nextReceiveKeys = c.nextReceiveKeys
  previous : c'.previousReceiveKeys = c.previousReceiveKeys
  phase : c'.currentKeyPhase = c.currentKeyPhase
  first : c'.currentPhaseFirstPacket = c.currentPhaseFirstPacket

theorem KeepsKeys.atGeneration (keeps : c.KeepsKeys c') (at_ : c.AtGeneration peer g) : c'.AtGeneration peer g := by
  obtain ⟨version, receive, send, next, previous, phase, first⟩ := keeps
  refine ⟨?_, ?_, ?_, ?_, ?_, ?_, ?_, ?_⟩
  · rw [version, at_.version]
  · rw [receive, at_.receive]
  · rw [send, at_.send]
  · rw [next, at_.next]
  · rw [phase, at_.phase]
  · rw [previous]
    exact at_.none
  · rw [previous]
    exact at_.previous
  · rw [first]
    exact at_.first

theorem openOneRTT_moves (at_ : c.AtGeneration peer g) {p : Bytes} {header : QUICPacketHeader}
    {number : Nat} (genuine : c.Genuine peer p header number) (nowMs : Nat) :
    (c.openOneRTT P p header nowMs).1.AtGeneration peer
        (if (c.arrival P p header number nowMs).opened then max (peer.generation number) g else g) ∧
      (if (c.arrival P p header number nowMs).opened then max (peer.generation number) g else g) =
        g + if (c.arrival P p header number nowMs).committed then 1 else 0 := by
  rcases openOneRTT_cases at_ genuine nowMs with refused | ⟨recovers, expected, done⟩
  · have opened : (c.arrival P p header number nowMs).opened = false := by simp only [arrival, refused, isSome_none]
    have committed : (c.arrival P p header number nowMs).committed = false := by
      simp only [arrival, refused, bne_self_eq_false]
    rw [opened, committed, refused]
    exact ⟨at_, rfl⟩
  have opened : (c.arrival P p header number nowMs).opened = true := by
    simp only [arrival, done]
    exact (genuine.opens _).mpr ⟨rfl, recovers⟩
  rw [if_pos opened, done]
  by_cases new : peer.generation number = g + 1
  · have committed : (c.arrival P p header number nowMs).committed = true := by
      simp only [arrival, done, if_pos new]
      show ((!c.currentKeyPhase) != c.currentKeyPhase) = true
      cases c.currentKeyPhase <;> rfl
    rw [if_pos new, if_pos committed, new, max_eq_left (Nat.le_succ g)]
    exact ⟨at_.commit new nowMs, rfl⟩
  have committed : (c.arrival P p header number nowMs).committed = false := by
    simp only [arrival, done, if_neg new, bne_self_eq_false]
  have old : peer.generation number ≤ g := by
    rcases expected with here | ⟨before, -⟩ | ⟨after, -⟩
    · exact here.le
    · omega
    · exact absurd after new
  rw [if_neg new, committed, max_eq_right old]
  exact ⟨at_, rfl⟩

/-- A run: packets of the peer arrive, in any order and any number of times or never, and between them the
connection does other things. -/
inductive Hears (peer : Peer P) (c : QUICConnection) : List Arrival → QUICConnection → Prop where
  | start : Hears peer c [] c
  | elsewhere {log : List Arrival} {d d' : QUICConnection} (run : Hears peer c log d)
      (keeps : d.KeepsKeys d') : Hears peer c log d'
  | packet {log : List Arrival} {d : QUICConnection} (run : Hears peer c log d) {p : Bytes}
      {header : QUICPacketHeader} {number : Nat} (genuine : d.Genuine peer p header number)
      (nowMs : Nat) :
      Hears peer c (d.arrival P p header number nowMs :: log) (d.openOneRTT P p header nowMs).1

/-- What a run keeps: the connection is at the last generation it opened a packet of, and has committed
once for each. -/
theorem Hears.atGeneration {log : List Arrival} (run : Hears peer c log c') (fresh : c.AtGeneration peer 0) :
    c'.AtGeneration peer (latest peer.generation log) ∧ commits log = latest peer.generation log := by
  induction run with
  | start => exact ⟨fresh, rfl⟩
  | elsewhere _ keeps ih => exact ⟨keeps.atGeneration ih.1, ih.2⟩
  | @packet log d _ p header number genuine nowMs ih =>
    obtain ⟨at_, once⟩ := ih
    obtain ⟨moved, counted⟩ := openOneRTT_moves at_ genuine nowMs
    have count : commits (d.arrival P p header number nowMs :: log) =
        commits log + if (d.arrival P p header number nowMs).committed then 1 else 0 :=
      countP_cons
    refine ⟨moved, ?_⟩
    rw [count, once]
    exact counted.symm

/-- In every run the key phase is the parity of the generation, both directions have the keys of one
generation, and the connection has committed once for every generation it has reached. A packet that
arrives then is opened with the keys of its own generation only, and if its number is recovered it is
opened exactly if it is of the current generation, of the one before while those keys are kept, or of the
next one where updates are permitted. -/
theorem key_updates_followed {log : List Arrival} (fresh : c.AtGeneration peer 0) (run : Hears peer c log c') :
    c'.currentKeyPhase = (latest peer.generation log).bodd ∧
      c'.keys.application.receive.keys = peer.receive (latest peer.generation log) ∧
      c'.keys.application.send.keys = peer.send (latest peer.generation log) ∧
      commits log = latest peer.generation log ∧ ∀ (p : Bytes) (header : QUICPacketHeader) (number nowMs : Nat),
        c'.Genuine peer p header number → (∀ opened, (c'.openOneRTT P p header nowMs).2 = some opened →
            c'.openedUnder P p header (peer.receive (peer.generation number)) = some opened) ∧
          (c'.Recovers P p header number → ((c'.openOneRTT P p header nowMs).2.isSome = true ↔
            c'.Expects peer (latest peer.generation log) number nowMs)) := by
  obtain ⟨at_, once⟩ := run.atGeneration fresh
  refine ⟨at_.phase, at_.receive, at_.send, once, ?_⟩
  intro p header number nowMs genuine
  have outcome := openOneRTT_cases at_ genuine nowMs
  constructor
  · intro opened result
    rcases outcome with refused | ⟨-, -, done⟩
    · rw [refused] at result
      cases result
    · rw [done] at result
      exact result
  · intro recovers
    constructor
    · intro some
      rcases outcome with refused | ⟨-, expected, -⟩
      · rw [refused] at some
        cases some
      · exact expected
    · exact openOneRTT_isSome at_ genuine recovers

end QUICConnection

/-- Primitives with one key per generation: secrets and keys grow by a byte with each, and the last byte of
a tag names the generation of the key. -/
def Primitives.generational : Primitives := { Primitives.transparent with
  hkdfExpand := fun _ secret _ n =>
    some (zeros (if n < 32 then n + (secret.length - 33) else n + 1))
  aeadSeal := fun aead _ _ plaintext =>
    some (plaintext ++ zeros 15 ++ [UInt8.ofNat (aead.key.length - 16)])
  aeadOpen := fun aead _ _ ciphertext =>
    if aead.key.length = 16 + (ciphertext.getLastD 0).toNat then
      some (ciphertext.take (ciphertext.length - 16))
    else none
  aeadSeal_length := by
    intro _ _ _ plaintext ciphertext sealed
    simp only [Option.some.injEq] at sealed
    simp [← sealed, zeros] }

def generationKeys (g : Nat) : QUICKeys where
  aead := some ⟨.aes128GCMSHA256, zeros (16 + g)⟩
  secret := zeros (33 + g)

theorem bigEndian_zeros (n : Nat) : bigEndian 0 (zeros n) = 0 := by
  induction n with
  | zero => rfl
  | succ n ih => exact ih

theorem generationKeys_next (g : Nat) :
    (generationKeys g).nextGeneration .generational 1 = some (generationKeys (g + 1)) := by
  have expand : ∀ hash secret label context n, quicExpandLabel .generational hash secret label context n =
        some (zeros (if n < 32 then n + (secret.length - 33) else n + 1)) := fun _ _ _ _ _ => rfl
  have length : ∀ n, (zeros n).length = n := fun n => length_replicate
  have nonempty : (zeros (33 + g)).isEmpty = false := by
    rw [← Bool.not_eq_true, isEmpty_iff_length_eq_zero, length]
    omega
  have secret : zeros (33 + g + 1) = zeros (33 + (g + 1)) := rfl
  have iv : ∀ n, bigEndian 0 ((zeros n).take 4) = 0 ∧ bigEndian 0 (((zeros n).drop 4).take 8) = 0 := by
    intro n
    simp only [zeros, drop_replicate, take_replicate]
    exact ⟨bigEndian_zeros _, bigEndian_zeros _⟩
  have derived : derive .generational (zeros (33 + (g + 1))) .aes128GCMSHA256 1 = some (generationKeys (g + 1)) := by
    simp only [derive, expand, bind_eq_bind, bind_some, length, (iv _).1, (iv _).2]
    show some ({ aead := some ⟨.aes128GCMSHA256, zeros (16 + (33 + (g + 1) - 33))⟩
                 secret := zeros (33 + (g + 1)) } : QUICKeys) = _
    rw [Nat.add_sub_cancel_left]
    rfl
  unfold nextGeneration
  show (if (zeros (33 + g)).isEmpty = true then none
    else (quicExpandLabel .generational _ (zeros (33 + g)) _ [] (zeros (33 + g)).length).bind
      fun next => derive .generational next .aes128GCMSHA256 1) = _
  rw [nonempty, if_neg (by decide), expand, bind_some, length, if_neg (by omega), secret]
  exact derived

/-- A peer that updates its keys once, with its packet `n`. -/
def updatingPeer (n : Nat) : Peer .generational where
  version := 1
  receive := generationKeys
  send := generationKeys
  generation number := if number < n then 0 else 1
  receive_next := generationKeys_next
  send_next := generationKeys_next
  monotone := by
    intro a b order
    show (if a < n then 0 else 1) ≤ (if b < n then 0 else 1)
    split_ifs <;> omega

/-- A 1-RTT packet with a PING and this generation in its tag. -/
def phasedPacket (first : UInt8) (number : Bytes) (generation : UInt8) : Bytes :=
  [first] ++ number ++ [1, 0, 0] ++ zeros 15 ++ [generation]

theorem openBody_generational (un : QUICProtect.Unprotected) (stop g : Nat) :
    (openBody .generational un stop (generationKeys g)).isSome = true ↔
      g = (((un.packet.take stop).drop un.headerLength).getLastD 0).toNat := by
  have length : (zeros (16 + g)).length = 16 + g := length_replicate
  generalize body : (un.packet.take stop).drop un.headerLength = ciphertext
  unfold openBody
  rw [body]
  show ((if (zeros (16 + g)).length = 16 + (ciphertext.getLastD 0).toNat then
    some (ciphertext.take (ciphertext.length - 16)) else none).bind _).isSome = true ↔ _
  by_cases same : g = (ciphertext.getLastD 0).toNat
  · rw [if_pos (by omega)]
    exact ⟨fun _ => same, fun _ => rfl⟩
  · rw [if_neg (by omega)]
    exact ⟨nofun, fun here => absurd here same⟩

theorem genuine_generational {c : QUICConnection} {p : Bytes} {header : QUICPacketHeader}
    {n number : Nat} {un : QUICProtect.Unprotected}
    (shown : c.unmasked .generational p header = some un) (exactly : un.packetNumber = number)
    (phase : un.keyPhase = ((updatingPeer n).generation number).bodd)
    (tag : (((un.packet.take header.end).drop un.headerLength).getLastD 0).toNat = (updatingPeer n).generation number) :
    c.Genuine (updatingPeer n) p header number := by
  have recovers : c.Recovers .generational p header number := by
    unfold QUICConnection.Recovers
    rw [shown, map_some, exactly]
  constructor
  · intro other found
    rw [shown] at found
    rw [← Option.some.inj found]
    exact phase
  · intro g
    unfold QUICConnection.openedUnder
    rw [shown, bind_some, ← tag, and_iff_left recovers]
    exact openBody_generational un header.end g

namespace World

theorem generational_made : (QUICConnection.init .generational {} 1 {} {} {} 0).isSome = true := by
  decide +kernel

def shaken : QUICConnection :=
  ((⟨(QUICConnection.init .generational {} 1 {} {} {} 0).get generational_made, []⟩ : World).run
    .generational [Client.hello, .nextDatagram 1200 1, Client.finished]).conn

theorem shaken_fresh (n : Nat) : shaken.AtGeneration (updatingPeer n) 0 where
  version := by
    show _ = 1
    decide +kernel
  receive := by
    show _ = generationKeys 0
    decide +kernel
  send := by
    show _ = generationKeys 0
    decide +kernel
  next := by
    show _ = generationKeys 1
    decide +kernel
  phase := by decide +kernel
  none := fun _ => by decide +kernel
  previous := by
    intro k impossible
    omega
  first := fun impossible => absurd rfl impossible

def phasedHeader (p : Bytes) : QUICPacketHeader := QUICPacket.parseHeader p 0

/-- The connection after packet 2, which updates the keys. -/
def updated : QUICConnection :=
  (shaken.openOneRTT .generational (phasedPacket 0x44 [2] 1)
    (phasedHeader (phasedPacket 0x44 [2] 1)) 3).1

theorem update_genuine : shaken.Genuine (updatingPeer 2) (phasedPacket 0x44 [2] 1)
    (phasedHeader (phasedPacket 0x44 [2] 1)) 2 := by
  have shown : shaken.unmasked .generational (phasedPacket 0x44 [2] 1)
      (phasedHeader (phasedPacket 0x44 [2] 1)) = some ⟨2, 1, true, 2, phasedPacket 0x44 [2] 1⟩ := by
    decide +kernel
  exact genuine_generational shown rfl rfl (by decide +kernel)

theorem straggler_genuine : updated.Genuine (updatingPeer 2) (phasedPacket 0x40 [1] 0)
    (phasedHeader (phasedPacket 0x40 [1] 0)) 1 := by
  have shown : updated.unmasked .generational (phasedPacket 0x40 [1] 0)
      (phasedHeader (phasedPacket 0x40 [1] 0)) = some ⟨1, 1, false, 2, phasedPacket 0x40 [1] 0⟩ := by
    decide +kernel
  exact genuine_generational shown rfl rfl (by decide +kernel)

/-- Packet 2 updates the keys, and packet 1, which arrives after it, is opened. -/
theorem key_updates_followed_late : updated.currentKeyPhase = true ∧
      updated.keys.application.receive.keys = generationKeys 1 ∧
      updated.keys.application.send.keys = generationKeys 1 ∧
      (updated.openOneRTT .generational (phasedPacket 0x40 [1] 0)
        (phasedHeader (phasedPacket 0x40 [1] 0)) 4).2.isSome = true := by
  have last : QUICConnection.latest (updatingPeer 2).generation [shaken.arrival .generational (phasedPacket 0x44 [2] 1)
        (phasedHeader (phasedPacket 0x44 [2] 1)) 2 3] = 1 := by
    decide +kernel
  have run : QUICConnection.Hears (updatingPeer 2) shaken [shaken.arrival .generational (phasedPacket 0x44 [2] 1)
        (phasedHeader (phasedPacket 0x44 [2] 1)) 2 3] updated := .packet .start update_genuine 3
  have recovers : updated.Recovers .generational (phasedPacket 0x40 [1] 0)
      (phasedHeader (phasedPacket 0x40 [1] 0)) 1 := by
    unfold QUICConnection.Recovers
    decide +kernel
  have early : 4 < updated.previousKeysExpireMs := by decide +kernel
  obtain ⟨phase, receive, send, -, packets⟩ := QUICConnection.key_updates_followed (shaken_fresh 2) run
  rw [last] at phase receive send packets
  have opened := (packets _ _ _ 4 straggler_genuine).2 recovers
  exact ⟨phase, receive, send, opened.mpr (.inr (.inl ⟨rfl, early⟩))⟩

/-- Packet 200 updates the keys, and packet 1, with its number in one byte, arrives after it. Its number is
taken for 257, so that it is tried with the next keys and not with those it was sealed with, which the
connection still has and would open it with. -/
theorem straggler_misread :
    let p := phasedPacket 0x40 [1] 0
    let c := ((⟨shaken, []⟩ : World).step .generational
      (.receive (phasedPacket 0x45 [0, 200] 1) 3)).conn
    c.currentKeyPhase = true ∧ c.currentPhaseFirstPacket = 200 ∧ c.previousKeysExpireMs = 1002 ∧
      c.previousReceiveKeys = generationKeys 0 ∧
      (c.unmasked .generational p (phasedHeader p)).map QUICProtect.Unprotected.packetNumber = some 257 ∧
      (c.openedUnder .generational p (phasedHeader p) (generationKeys 0)).isSome = true ∧
      (c.openOneRTT .generational p (phasedHeader p) 4).2 = none := by
  decide +kernel

end World
end AvianCore.Quic
