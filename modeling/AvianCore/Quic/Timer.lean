import AvianCore.Quic.Connection

/-!
Timers: when a connection needs attention, and what a timeout does to it.
-/

namespace AvianCore.Quic
namespace QUICConnection

def levels : List QUICLevel := [.initial, .handshake, .application]

def hasOutput (c : QUICConnection) : Bool :=
  match c.status with
  | .closing => c.closeFramePending && !c.closeWasReceived
  | .drained => false
  | _ =>
    levels.any (fun level => (c.spaces.get level).ackPending)
      || levels.any (fun level =>
        0 < (c.cryptoSend.get level).pending || !(c.cryptoSend.get level).lost.isEmpty)
      || c.handshakeDonePending || c.maxDataPending || c.maxStreamsBidiPending
      || c.maxStreamsUniPending || c.pingPending
      || !c.pathResponsePending.isEmpty || !c.outgoingDatagrams.isEmpty || !c.writable.isEmpty

def consider (deadline : Option Nat) (time : Nat) : Option Nat :=
  if time = 0 then deadline
  else
    match deadline with
    | none => some time
    | some known => if time < known then some time else deadline

def probeDeadline (c : QUICConnection) : Nat :=
  let inFlight := levels.filter fun level => 0 < (c.spaces.get level).ackElicitingInFlight
  let lastSent := inFlight.foldl
    (fun last level => max last (c.spaces.get level).timeOfLastAckElicitingMs) 0
  if !inFlight.isEmpty then lastSent + c.recovery.ptoMs c.handshakeConfirmed
  else if !c.handshakeComplete then c.lastActivityMs + c.recovery.ptoMs false
  else 0

def nextTimeout (c : QUICConnection) : Option Nat :=
  match c.status with
  | .drained => none
  | .closing => some (c.closeSentAtMs + 3 * c.recovery.ptoMs true)
  | _ =>
    let deadline := levels.foldl
      (fun deadline level => consider deadline (c.spaces.get level).ackDeadlineMs) none
    let deadline := levels.foldl
      (fun deadline level => consider deadline (c.spaces.get level).lossTimeMs) deadline
    let deadline := consider deadline c.probeDeadline
    if 0 < c.idleTimeoutMs then
      consider deadline (c.lastActivityMs + max c.idleTimeoutMs (3 * c.recovery.ptoMs true))
    else deadline

/-- An acknowledgement whose deadline has passed goes out with the next datagram. -/
def releaseAck (nowMs : Nat) (c : QUICConnection) (level : QUICLevel) : QUICConnection :=
  let space := c.spaces.get level
  if space.ackDeadlineMs ≠ 0 ∧ space.ackDeadlineMs ≤ nowMs then
    { c with spaces := c.spaces.set level { space with ackDeadlineMs := 0, ackPending := true } }
  else c

def expireLoss (nowMs : Nat) (state : QUICConnection × Bool) (level : QUICLevel) : QUICConnection × Bool :=
  let c := state.1
  let space := c.spaces.get level
  if space.lossTimeMs ≠ 0 ∧ space.lossTimeMs ≤ nowMs then
    let (lost, space, recovery) := QUICLossDetection.onLossTimer space c.recovery nowMs
    let c : QUICConnection := { c with
      spaces := c.spaces.set level space
      recovery := recovery
      history := lost.map (Mark.lost level) ++ c.history }
    (lost.foldl (fun c packet => c.onPacketLostPublic packet level) c, true)
  else state

/-- Handshake bytes that are still unacknowledged go back on the wire. -/
def resendCrypto (state : QUICConnection × Bool) (level : QUICLevel) : QUICConnection × Bool :=
  let c := state.1
  let stream := c.cryptoSend.get level
  if (c.keys.get level).send.isValid ∧ stream.base < stream.sent then
    ({ c with
      cryptoSend := c.cryptoSend.set level (stream.declareLost stream.base stream.sent) }, true)
  else state

def probe (c : QUICConnection) : QUICConnection :=
  let c := { c with recovery := c.recovery.onProbeTimeout }
  match levels.foldl resendCrypto (c, false) with
  | (c, true) => c
  | (c, false) => { c with pingPending := true }

def onTimeout (c : QUICConnection) (nowMs : Nat) : QUICConnection :=
  match c.status with
  | .drained => c
  | .closing =>
    if c.closeSentAtMs + 3 * c.recovery.ptoMs true ≤ nowMs then { c with status := .drained } else c
  | _ =>
    if c.isIdle nowMs then
      ({ c with status := .drained } : QUICConnection).append
        { kind := .closed, code := QUICError.noError.rawValue }
    else
      let c := levels.foldl (releaseAck nowMs) c
      match levels.foldl (expireLoss nowMs) (c, false) with
      | (c, true) => c
      | (c, false) => c.probe

/-- What holds of a connection before and after each thing that a timeout brings. -/
structure Expires (nowMs : Nat) (R : QUICConnection → QUICConnection → Prop) : Prop where
  refl : ∀ c, R c c
  trans : ∀ {c c' c''}, R c c' → R c' c'' → R c c''
  drained : ∀ c : QUICConnection, c.status = .closing → R c { c with status := .drained }
  idled : ∀ c : QUICConnection, ¬c.status.isClosing → R c (({ c with status := .drained } : QUICConnection).append
    { kind := .closed, code := QUICError.noError.rawValue })
  released : ∀ c level, R c (releaseAck nowMs c level)
  lost : ∀ c expired level, R c (expireLoss nowMs (c, expired) level).1
  counted : ∀ c : QUICConnection, R c { c with recovery := c.recovery.onProbeTimeout }
  resent : ∀ c resent level, R c (resendCrypto (c, resent) level).1
  pinged : ∀ c : QUICConnection, R c { c with pingPending := true }

namespace Expires
variable {nowMs : Nat} {R : QUICConnection → QUICConnection → Prop}

theorem flagged (expires : Expires nowMs R) {act : QUICConnection × Bool → QUICLevel → QUICConnection × Bool}
    (each : ∀ c flag level, R c (act (c, flag) level).1) (levels : List QUICLevel) (c : QUICConnection) (flag : Bool) :
    R c (levels.foldl act (c, flag)).1 := by
  induction levels generalizing c flag with
  | nil => exact expires.refl c
  | cons level rest ih => exact expires.trans (each c flag level) (ih _ _)

theorem probe (expires : Expires nowMs R) (c : QUICConnection) : R c c.probe := by
  have both := expires.trans (expires.counted c) (expires.flagged expires.resent levels _ false)
  unfold QUICConnection.probe
  extract_lets c1
  split
  next c2 done =>
    rw [done] at both
    exact both
  next c2 done =>
    rw [done] at both
    exact expires.trans both (expires.pinged c2)

theorem onTimeout (expires : Expires nowMs R) (c : QUICConnection) : R c (c.onTimeout nowMs) := by
  unfold QUICConnection.onTimeout
  split
  · exact expires.refl c
  next closing =>
    split_ifs
    · exact expires.drained c closing
    · exact expires.refl c
  next notDrained notClosing =>
    split_ifs
    · have alive : ¬c.status.isClosing := by cases status : c.status <;> simp_all [Status.isClosing]
      exact expires.idled c alive
    have released : R c (levels.foldl (releaseAck nowMs) c) :=
      expires.trans (expires.trans (expires.released c .initial) (expires.released _ .handshake))
        (expires.released _ .application)
    have both := expires.trans released (expires.flagged expires.lost levels _ false)
    extract_lets c1
    split
    next c2 done =>
      rw [done] at both
      exact both
    next c2 done =>
      rw [done] at both
      exact expires.trans both (expires.probe c2)

end Expires

end QUICConnection
end AvianCore.Quic
