import AvianCore.Quic.Run

/-!
The frames that a datagram brings, each with the connection that it meets. A relation between
connections that holds over every frame, and over the little that happens between them, holds over the
datagram.
-/

namespace AvianCore.Quic
open List

/-- A frame whose type has been read, and the connection that is to handle it. -/
structure Meeting where
  conn : QUICConnection
  level : QUICLevel
  type : FrameType
  nowMs : Nat
  reader : QUICReader

section
variable (P : Primitives)

def Meeting.handled (m : Meeting) : QUICConnection.Handled := m.conn.processFrame P m.type m.level m.nowMs m.reader

namespace QUICConnection

def frameMeetings (level : QUICLevel) (nowMs : Nat) :
    Nat → QUICConnection → QUICReader → List Meeting
  | 0, _, _ => []
  | fuel + 1, c, r =>
    if r.isEmpty then []
    else
      match readFrameType level r with
      | .error _ => []
      | .ok (type, _, r) =>
        ⟨c, level, type, nowMs, r⟩ ::
          match c.processFrame P type level nowMs r with
          | (_, none) => []
          | (c, some r) => frameMeetings level nowMs fuel c r

def packetMeetings (c : QUICConnection) (p : Bytes) (header : QUICPacketHeader) (level : QUICLevel)
    (nowMs : Nat) : List Meeting :=
  if header.isLong ∧ header.version ≠ c.version then []
  else if !(c.keys.get level).receive.isValid then []
  else
    match c.openPacket P p header level nowMs with
    | (_, none) => []
    | (c, some packet) =>
      let c := c.validateAddress level
      if (c.spaces.get level).acks.contains packet.packetNumber then []
      else
        frameMeetings P level nowMs (packet.payload.length + 1)
          (c.mark (.frames level packet.packetNumber)) ⟨packet.payload, 0⟩

end QUICConnection

/-- A packet of a datagram, and the connection that is to read it. -/
structure Arriving where
  conn : QUICConnection
  p : Bytes
  header : QUICPacketHeader
  level : QUICLevel
  nowMs : Nat

def Arriving.received (q : Arriving) : QUICConnection := (q.conn.receivePacket P q.p q.header q.level q.nowMs).1

def Arriving.meetings (q : Arriving) : List Meeting := q.conn.packetMeetings P q.p q.header q.level q.nowMs

namespace QUICConnection

def arrivals (nowMs : Nat) : Nat → QUICConnection → Bytes → List Arriving
  | 0, _, _ => []
  | fuel + 1, c, p =>
    if p.isEmpty then []
    else
      let header := QUICPacket.parseHeader p c.localCID.length
      if !header.isValid then []
      else
        let here := (packetLevel header.type).toList.map fun level => ⟨c, p, header, level, nowMs⟩
        if header.end = 0 then here
        else here ++ arrivals nowMs fuel (c.receiveOne P p header nowMs) (p.drop header.end)

def receiveArrivals (c : QUICConnection) (datagram : Bytes) (nowMs : Nat) : List Arriving :=
  let c := { c with acceptedNewPacket := false }
  if c.status = .drained then []
  else
    arrivals P nowMs datagram.length { c with bytesReceived := c.bytesReceived + datagram.length }
      datagram

def receiveMeetings (c : QUICConnection) (datagram : Bytes) (nowMs : Nat) : List Meeting :=
  (c.receiveArrivals P datagram nowMs).flatMap (Arriving.meetings P)

/-- What holds of a connection before and after each thing that a datagram brings but its frames. -/
structure Spans (R : QUICConnection → QUICConnection → Prop) : Prop where
  refl : ∀ c, R c c
  trans : ∀ {c c' c''}, R c c' → R c' c'' → R c c''
  started : ∀ c, R c { c with acceptedNewPacket := false }
  counted : ∀ (c : QUICConnection) n, R c { c with bytesReceived := n }
  opened : ∀ (c : QUICConnection) p header level nowMs, (c.keys.get level).receive.isValid = true →
    R c (c.openPacket P p header level nowMs).1
  validated : ∀ (c : QUICConnection) level, R c (c.validateAddress level)
  taken : ∀ (c : QUICConnection) level number, R c (c.mark (.frames level number))
  stopped : ∀ (c : QUICConnection) error, R c (c.fail error)
  recorded : ∀ (c : QUICConnection) level number eliciting nowMs,
    R c (c.recordArrival level number eliciting nowMs)
  cut : ∀ (c : QUICConnection) level number, R c (c.mark (.cutShort level number))
  active : ∀ (c : QUICConnection) nowMs, R c { c with lastActivityMs := nowMs }

/-- What holds of a connection before and after each thing that a datagram brings but its packets. -/
structure Carries (R : QUICConnection → QUICConnection → Prop) : Prop where
  refl : ∀ c, R c c
  trans : ∀ {c c' c''}, R c c' → R c' c'' → R c c''
  started : ∀ c, R c { c with acceptedNewPacket := false }
  counted : ∀ (c : QUICConnection) n, R c { c with bytesReceived := c.bytesReceived + n }
  active : ∀ (c : QUICConnection) nowMs, R c { c with lastActivityMs := nowMs }

variable {P} {R : QUICConnection → QUICConnection → Prop} {level : QUICLevel} {nowMs : Nat}

theorem Carries.frameLoop (carries : Carries R)
    (next : ∀ c r, R c (nextFrame P c level nowMs r).1.1) (fuel : Nat) (c : QUICConnection) (ackEliciting : Bool)
    (r : QUICReader) : R c (frameLoop P level nowMs fuel c ackEliciting r).1 := by
  induction fuel generalizing c ackEliciting r with
  | zero => exact carries.refl c
  | succ fuel ih =>
    unfold QUICConnection.frameLoop
    split_ifs
    · exact carries.refl c
    have first := next c r
    split
    next stopped =>
      rw [stopped] at first
      exact first
    next went =>
      rw [went] at first
      exact carries.trans first (ih _ _ _)

theorem Spans.frameLoop (spans : Spans P R) (level : QUICLevel) (nowMs fuel : Nat)
    (c : QUICConnection) (ackEliciting : Bool) (r : QUICReader)
    (frames : ∀ m ∈ frameMeetings P level nowMs fuel c r, R m.conn (m.handled P).1) :
    R c (frameLoop P level nowMs fuel c ackEliciting r).1 := by
  induction fuel generalizing c ackEliciting r with
  | zero => exact spans.refl c
  | succ fuel ih =>
    unfold QUICConnection.frameLoop nextFrame
    unfold frameMeetings at frames
    by_cases done : r.isEmpty = true
    · rw [if_pos done]
      exact spans.refl c
    rw [if_neg done] at frames ⊢
    cases type : readFrameType level r with
    | error error => exact spans.stopped c error
    | ok read =>
      obtain ⟨type', eliciting, r'⟩ := read
      rw [type] at frames
      simp only at frames ⊢
      have first : R c (c.processFrame P type' level nowMs r').1 := frames ⟨c, level, type', nowMs, r'⟩ mem_cons_self
      cases handled : c.processFrame P type' level nowMs r' with
      | mk c1 next =>
        rw [handled] at first frames
        cases next with
        | none => exact first
        | some r'' => exact spans.trans first (ih c1 _ r'' fun m member => frames m (mem_cons_of_mem _ member))

theorem Spans.before_frame (spans : Spans P R) (level : QUICLevel) (nowMs fuel : Nat)
    (c : QUICConnection) (r : QUICReader)
    (frames : ∀ m ∈ frameMeetings P level nowMs fuel c r, R m.conn (m.handled P).1)
    {m : Meeting} (met : m ∈ frameMeetings P level nowMs fuel c r) : R c m.conn := by
  induction fuel generalizing c r with
  | zero => cases met
  | succ fuel ih =>
    unfold frameMeetings at frames met
    by_cases done : r.isEmpty = true
    · rw [if_pos done] at met
      cases met
    rw [if_neg done] at frames met
    cases type : readFrameType level r with
    | error error =>
      rw [type] at met
      cases met
    | ok read =>
      obtain ⟨type', eliciting, r'⟩ := read
      rw [type] at frames met
      simp only at frames met
      have first : R c (c.processFrame P type' level nowMs r').1 := frames ⟨c, level, type', nowMs, r'⟩ mem_cons_self
      rcases mem_cons.mp met with same | later
      · rw [same]
        exact spans.refl c
      cases handled : c.processFrame P type' level nowMs r' with
      | mk c1 next =>
        rw [handled] at first frames later
        cases next with
        | none => cases later
        | some r'' => exact spans.trans first (ih c1 r'' (fun m member => frames m (mem_cons_of_mem _ member)) later)

theorem frameMeetings_level {fuel : Nat} {c : QUICConnection}
    {r : QUICReader} {m : Meeting} (met : m ∈ frameMeetings P level nowMs fuel c r) :
    m.level = level ∧ ∃ r' eliciting behind, readFrameType level r' = .ok (m.type, eliciting, behind) := by
  induction fuel generalizing c r with
  | zero => cases met
  | succ fuel ih =>
    unfold frameMeetings at met
    by_cases done : r.isEmpty = true
    · rw [if_pos done] at met
      cases met
    rw [if_neg done] at met
    split at met
    · cases met
    next read =>
      rcases mem_cons.mp met with rfl | later
      · exact ⟨rfl, r, _, _, read⟩
      split at later
      · cases later
      · exact ih later

theorem Spans.processPayload (spans : Spans P R) (c : QUICConnection) (level : QUICLevel)
    (packet : QUICProtect.Opened) (nowMs : Nat)
    (frames : ∀ m ∈ frameMeetings P level nowMs (packet.payload.length + 1)
      (c.mark (.frames level packet.packetNumber)) ⟨packet.payload, 0⟩, R m.conn (m.handled P).1) :
    R c (c.processPayload P level packet nowMs) := by
  have taken := spans.taken c level packet.packetNumber
  have handled := spans.frameLoop level nowMs (packet.payload.length + 1) _ false _ frames
  unfold QUICConnection.processPayload processFrames
  dsimp only
  split
  next c1 stopped =>
    rw [stopped] at handled
    exact spans.trans (spans.trans taken handled) (spans.cut c1 level packet.packetNumber)
  next c1 eliciting finished =>
    rw [finished] at handled
    exact spans.trans (spans.trans taken handled) (spans.recorded c1 level _ eliciting nowMs)

theorem Spans.receivePacket (spans : Spans P R) (c : QUICConnection) (p : Bytes)
    (header : QUICPacketHeader) (level : QUICLevel) (nowMs : Nat)
    (frames : ∀ m ∈ c.packetMeetings P p header level nowMs, R m.conn (m.handled P).1) :
    R c (c.receivePacket P p header level nowMs).1 := by
  unfold QUICConnection.receivePacket
  unfold packetMeetings at frames
  by_cases other : header.isLong ∧ header.version ≠ c.version
  · rw [if_pos other]
    exact spans.refl c
  rw [if_neg other] at frames ⊢
  by_cases keyless : (!(c.keys.get level).receive.isValid) = true
  · rw [if_pos keyless]
    exact spans.refl c
  rw [if_neg keyless] at frames ⊢
  have opened := spans.opened c p header level nowMs (by simpa using keyless)
  cases open' : c.openPacket P p header level nowMs with
  | mk c1 result =>
    rw [open'] at opened frames
    cases result with
    | none => exact opened
    | some packet =>
      have validated := spans.trans opened (spans.validated c1 level)
      dsimp only at frames ⊢
      unfold acceptPacket
      dsimp only
      by_cases duplicate : ((c1.validateAddress level).spaces.get level).acks.contains packet.packetNumber = true
      · rw [if_pos duplicate]
        exact validated
      rw [if_neg duplicate] at frames ⊢
      exact spans.trans validated (spans.processPayload _ level packet nowMs frames)

theorem Carries.receiveOne (carries : Carries R) (c : QUICConnection) (p : Bytes)
    (header : QUICPacketHeader) (nowMs : Nat) (packet : ∀ level, packetLevel header.type = some level →
      R c (c.receivePacket P p header level nowMs).1) : R c (c.receiveOne P p header nowMs) := by
  unfold QUICConnection.receiveOne
  cases type : packetLevel header.type with
  | none => exact carries.refl c
  | some level =>
    have received := packet level type
    dsimp only
    cases result : c.receivePacket P p header level nowMs with
    | mk c1 accepted =>
      rw [result] at received
      cases accepted with
      | false => exact received
      | true => exact carries.trans received (carries.active c1 nowMs)

theorem Carries.packetLoop (carries : Carries R) (nowMs fuel : Nat) (c : QUICConnection) (p : Bytes)
    (packets : ∀ q ∈ arrivals P nowMs fuel c p, R q.conn (q.received P)) :
    R c (packetLoop P nowMs fuel c p) := by
  induction fuel generalizing c p with
  | zero => exact carries.refl c
  | succ fuel ih =>
    unfold QUICConnection.packetLoop
    unfold arrivals at packets
    by_cases done : p.isEmpty = true
    · rw [if_pos done]
      exact carries.refl c
    rw [if_neg done] at packets ⊢
    dsimp only at packets ⊢
    generalize QUICPacket.parseHeader p c.localCID.length = header at packets ⊢
    by_cases invalid : (!header.isValid) = true
    · rw [if_pos invalid]
      exact carries.refl c
    rw [if_neg invalid] at packets ⊢
    have one (each : ∀ q ∈ (packetLevel header.type).toList.map fun level =>
        (⟨c, p, header, level, nowMs⟩ : Arriving), R q.conn (q.received P)) :
        R c (c.receiveOne P p header nowMs) := by
      apply carries.receiveOne c p header nowMs
      intro level type
      apply each ⟨c, p, header, level, nowMs⟩
      rw [type]
      exact mem_singleton.mpr rfl
    by_cases last : header.end = 0
    · rw [if_pos last] at packets ⊢
      exact one packets
    rw [if_neg last] at packets ⊢
    exact carries.trans (one fun q here => packets q (mem_append_left _ here))
      (ih _ _ fun q later => packets q (mem_append_right _ later))

theorem Carries.receive (carries : Carries R) (c : QUICConnection) (datagram : Bytes) (nowMs : Nat)
    (packets : ∀ q ∈ c.receiveArrivals P datagram nowMs, R q.conn (q.received P)) :
    R c (c.receive P datagram nowMs) := by
  unfold QUICConnection.receive
  unfold receiveArrivals at packets
  dsimp only at packets ⊢
  have started := carries.started c
  by_cases drained : c.status = .drained
  · rw [if_pos drained]
    exact started
  · rw [if_neg drained] at packets ⊢
    exact carries.trans (carries.trans started (carries.counted _ _)) (carries.packetLoop nowMs _ _ _ packets)

theorem Spans.receive (spans : Spans P R) (c : QUICConnection) (datagram : Bytes) (nowMs : Nat)
    (frames : ∀ m ∈ c.receiveMeetings P datagram nowMs, R m.conn (m.handled P).1) :
    R c (c.receive P datagram nowMs) := by
  have carries : Carries R := ⟨spans.refl, spans.trans, spans.started, fun c _ => spans.counted c _, spans.active⟩
  refine carries.receive c datagram nowMs fun q arrived => ?_
  exact spans.receivePacket q.conn q.p q.header q.level q.nowMs
    fun m met => frames m (mem_flatMap.mpr ⟨q, arrived, met⟩)

theorem packetMeetings_payload {c : QUICConnection} {p : Bytes} {header : QUICPacketHeader}
    {m : Meeting} (met : m ∈ c.packetMeetings P p header level nowMs) :
    ∃ packet, (c.openPacket P p header level nowMs).2 = some packet ∧
      m ∈ frameMeetings P level nowMs (packet.payload.length + 1)
        (((c.openPacket P p header level nowMs).1.validateAddress level).mark
          (.frames level packet.packetNumber)) ⟨packet.payload, 0⟩ := by
  unfold packetMeetings at met
  split at met
  · cases met
  split at met
  · cases met
  split at met
  · cases met
  next c1 packet opened =>
    rw [opened]
    dsimp only at met ⊢
    split at met
    · cases met
    · exact ⟨packet, rfl, met⟩

end QUICConnection
end
end AvianCore.Quic
