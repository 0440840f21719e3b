import AvianCore.Quic.AckOnly

/-!
What a packet of ACK and PADDING frames leads to. It elicits no acknowledgement, but it is noted as
received like any other and an ACK is then pending, so that an idle connection answers it.
-/

namespace AvianCore.Quic
open AvianCore.Lib Draft List PerLevel

namespace QUICConnection

def owesFrames (c : QUICConnection) : Bool :=
  levels.any (fun level =>
      0 < (c.cryptoSend.get level).pending || !(c.cryptoSend.get level).lost.isEmpty)
    || c.handshakeDonePending || c.maxDataPending || c.maxStreamsBidiPending
    || c.maxStreamsUniPending || c.pingPending
    || !c.pathResponsePending.isEmpty || !c.outgoingDatagrams.isEmpty || !c.writable.isEmpty

variable {c : QUICConnection}

theorem hasOutput_connected (connected : c.status = .connected) :
    c.hasOutput = (levels.any (fun level => (c.spaces.get level).ackPending) || c.owesFrames) := by
  simp only [hasOutput, connected, owesFrames, Bool.or_assoc]

theorem mem_levels (level : QUICLevel) : level ∈ levels := by
  cases level <;> decide

/-- The parts of a connection with nothing to send but acknowledgements. -/
structure Empty (c : QUICConnection) : Prop where
  pending : ∀ level, (c.cryptoSend.get level).written ≤ (c.cryptoSend.get level).sent
  lost : ∀ level, (c.cryptoSend.get level).lost.ranges = []
  handshakeDone : c.handshakeDonePending = false
  maxData : c.maxDataPending = false
  maxStreamsBidi : c.maxStreamsBidiPending = false
  maxStreamsUni : c.maxStreamsUniPending = false
  ping : c.pingPending = false
  responses : c.pathResponsePending = []
  datagrams : c.outgoingDatagrams = []
  writable : c.writable = []

theorem empty_of_owesFrames (nothing : c.owesFrames = false) : c.Empty := by
  simp only [owesFrames, Bool.or_eq_false_iff, any_eq_false, Bool.not_eq_true, Bool.not_eq_false',
    List.isEmpty_iff, QUICByteRanges.isEmpty] at nothing
  obtain ⟨⟨⟨⟨⟨⟨⟨⟨crypto, done⟩, maxData⟩, bidi⟩, uni⟩, ping⟩, responses⟩, datagrams⟩, writable⟩ := nothing
  refine ⟨fun level => ?_, fun level => (crypto level (mem_levels level)).2, done, maxData, bidi, uni,
    ping, responses, datagrams, writable⟩
  have none := of_decide_eq_false (crypto level (mem_levels level)).1
  unfold QUICSendStream.pending at none
  omega

theorem Empty.writeApplicationFrames {d : Draft} (empty : d.conn.Empty) : d.writeApplicationFrames = d := by
  have done : d.writeHandshakeDone = d := by
    unfold writeHandshakeDone
    rw [if_neg]
    simp [empty.handshakeDone]
  have limit : ∀ type limit done note, d.writeLimit false type limit done note = d := by
    intro type limit done note
    unfold writeLimit
    rw [if_neg]
    simp
  have streams : d.writeStreamFrames = d := by
    have same : ({ d.conn with writable := [] } : QUICConnection) = d.conn := by rw [← empty.writable]
    unfold writeStreamFrames
    rw [empty.writable]
    show ({ d with conn := { d.conn with writable := [] } } : Draft) = d
    rw [same]
  unfold Draft.writeApplicationFrames Draft.writeMaxData Draft.writeMaxStreamsBidi Draft.writeMaxStreamsUni
  simp only [done, empty.responses, writePathResponses, empty.maxData, limit,
    empty.maxStreamsBidi, empty.maxStreamsUni, empty.datagrams, writeDatagrams, streams]

theorem Empty.writeCrypto {d : Draft} (empty : d.conn.Empty) (level : QUICLevel) : d.writeCrypto level = d := by
  unfold Draft.writeCrypto
  extract_lets stream stretch offset length overhead
  have sent : stream.written ≤ stream.sent := empty.pending level
  have fresh : stretch = ⟨stream.sent, max stream.sent stream.written⟩ := by
    simp only [stretch, cryptoStretch, stream, empty.lost level]
  have none : length = 0 := by
    show stretch.high - stretch.low = 0
    rw [fresh]
    show max stream.sent stream.written - stream.sent = 0
    omega
  rw [if_pos none]

theorem Empty.fill {d : Draft} (empty : d.conn.Empty) (level : QUICLevel) (ackOnly : Bool) :
    d.fill level ackOnly = d := by
  have ping : d.writePing = d := by
    unfold writePing
    rw [if_neg]
    simp [empty.ping]
  unfold Draft.fill
  simp only [empty.writeApplicationFrames, ite_self, empty.writeCrypto, ping]

theorem Empty.plain (empty : c.Empty) (ackOnly : Bool) : c.Plain ackOnly := by
  intro d level crypto flow queues frames
  apply Empty.fill
  obtain ⟨pending, lost, done, maxData, bidi, uni, ping, responses, datagrams, writable⟩ := empty
  exact ⟨crypto ▸ pending, crypto ▸ lost, frames ▸ done, frames ▸ maxData, frames ▸ bidi, frames ▸ uni,
    frames ▸ ping, frames ▸ responses, queues ▸ datagrams, flow ▸ writable⟩

theorem ackPackets_eq_nil (c : QUICConnection) (nowMs limit : Nat) (levels : List QUICLevel)
    (start : Nat) : c.ackPackets nowMs limit levels start = [] ↔
      ∀ level ∈ levels, c.ackFits level nowMs limit start = false := by
  induction levels with
  | nil => simp [ackPackets]
  | cons level rest ih =>
    unfold ackPackets
    rw [forall_mem_cons, ← ih]
    cases c.ackFits level nowMs limit start <;> simp

theorem padLast_ready {planned : List PlannedPacket} {budget : Nat}
    (each : ∀ packet ∈ planned, Formed packet ∧ (c.keys.get packet.level).send.isValid = true) :
    ∀ packet ∈ padLast planned budget, Formed packet ∧ (c.keys.get packet.level).send.isValid = true := by
  unfold padLast
  split
  · exact each
  next last found =>
    extract_lets carriesInitial target minimumPayload padding padding'
    split
    · intro packet member
      rcases mem_append.mp member with earlier | final
      · exact each packet (dropLast_subset _ earlier)
      obtain ⟨formed, valid⟩ := each last (mem_of_getLast? found)
      rw [mem_singleton.mp final]
      exact ⟨formed.pad _ _, valid⟩
    · exact each

theorem padLast_eq_nil (planned : List PlannedPacket) (budget : Nat) : padLast planned budget = [] ↔ planned = [] := by
  have lengths := congrArg List.length (padLast_numbers planned budget)
  rw [length_map, length_map] at lengths
  rw [← length_eq_zero_iff, lengths, length_eq_zero_iff]

section
variable (P : Primitives)

theorem sealAll_count (nowMs : Nat) (packet : PlannedPacket) (rest : List PlannedPacket)
    (c : QUICConnection) (out : Datagram) (sealable : c.sealable P (packet :: rest) = true) :
    ∃ done, (sealAll P nowMs (packet :: rest) c out).2 = some done ∧ 16 ≤ done.count := by
  induction rest generalizing packet c out with
  | nil =>
    obtain ⟨sealed, made⟩ := Option.isSome_iff_exists.mp (by simpa [QUICConnection.sealable] using sealable :
      (c.sealPacket P packet).isSome = true)
    have long := length_sealPacket_ge made
    simp only [sealAll, made]
    exact ⟨_, rfl, long.trans (Nat.le_add_left _ _)⟩
  | cons next rest ih =>
    have both : (c.sealPacket P packet).isSome = true ∧ c.sealable P (next :: rest) = true := by
      simpa [QUICConnection.sealable] using sealable
    obtain ⟨sealed, made⟩ := Option.isSome_iff_exists.mp both.1
    unfold sealAll
    rw [made]
    exact ih next _ _ both.2

/-- An open connection that owes nothing but acknowledgements stays silent exactly if none of them may
go out. -/
theorem nextDatagram_silent_iff {P : Primitives} (seals : P.Seals) {c : QUICConnection}
    (connected : c.status = .connected) (empty : c.Empty) (capacity nowMs : Nat) :
    (c.nextDatagram P capacity nowMs).2.count = 0 ↔ c.sendBudget capacity < 64 ∨
      ∀ level ∈ levels, c.ackFits level nowMs (c.sendBudget capacity) 0 = false := by
  unfold nextDatagram
  extract_lets budget
  rw [connected]
  show (if budget < 64 then (c, ({} : Datagram)) else c.buildDatagram P budget nowMs).2.count = 0 ↔ _
  by_cases narrow : budget < 64
  · rw [if_pos narrow]
    exact ⟨fun _ => .inl narrow, fun _ => rfl⟩
  rw [if_neg narrow, ← ackPackets_eq_nil]
  have laid := (layout_spec c budget nowMs).1
  have packets := (layout_plain (empty.plain _) budget nowMs).1
  have ready : c.sealable P (c.layout budget nowMs).2 = true := by
    rw [packets]
    exact sealable_of_formed seals (padLast_ready fun packet member => ackPackets_ready member)
  rw [← sealable_keys P laid.keys] at ready
  have silent : c.ackPackets nowMs budget levels 0 = [] ↔ (c.layout budget nowMs).2 = [] := by
    rw [packets, padLast_eq_nil]
    rfl
  show _ ↔ budget < 64 ∨ c.ackPackets nowMs budget levels 0 = []
  rw [buildDatagram_eq, silent, or_iff_right narrow]
  cases planned : (c.layout budget nowMs).2 with
  | nil => simp [sealAll]
  | cons packet rest =>
    rw [planned] at ready
    obtain ⟨done, made, long⟩ := sealAll_count P nowMs packet rest (c.layout budget nowMs).1 {} ready
    split
    next failed =>
      rw [failed] at made
      cases made
    next c1 out sealed =>
      rw [sealed] at made
      obtain rfl : out = done := Option.some.inj made
      simp only [reduceCtorEq, iff_false]
      omega

end
def acksOnly (level : QUICLevel) : Nat → QUICReader → Bool
  | 0, _ => true
  | fuel + 1, r =>
    r.isEmpty ||
      match readFrameType level r with
      | .ok (.padding, _, r) => acksOnly level fuel (r.advance (r.rest.takeWhile (· == 0)).length)
      | .ok (.ack, _, r) =>
        match quicReadAckFrame r false with
        | some (_, _, r) => acksOnly level fuel r
        | none => false
      | .ok (.ackECN, _, r) =>
        match quicReadAckFrame r true with
        | some (_, _, r) => acksOnly level fuel r
        | none => false
      | _ => false

def elicitsNothing (level : QUICLevel) (payload : Bytes) : Bool := acksOnly level (payload.length + 1) ⟨payload, 0⟩

theorem fail_status (c : QUICConnection) (error : QUICError) : (c.fail error).status ≠ .connected := by
  unfold fail close
  split_ifs with closing
  · intro connected
    rw [connected] at closing
    cases closing
  · simp [append]

def Aside (level : QUICLevel) (c c' : QUICConnection) : Prop :=
  ∀ other ≠ level, c'.spaces.get other = c.spaces.get other

theorem acceptAck_aside (c : QUICConnection) (ranges : List PacketRange) (largest delayRaw : Nat)
    (level : QUICLevel) (nowMs : Nat) :
    Aside level c (c.acceptAck ranges largest delayRaw level nowMs) := by
  intro other apart
  obtain ⟨delay, same⟩ := acceptAck_transit c ranges largest delayRaw level nowMs
  show (c.acceptAck ranges largest delayRaw level nowMs).transit.spaces.get other = _
  rw [same]
  exact get_set_ne _ apart _

/-- What handling frames of a packet comes to: the connection closes, or the frames behind are next and
the change was to one space. -/
def Settles (level : QUICLevel) (c : QUICConnection) (next : QUICReader → Prop) : Handled → Prop
  | (c', none) => c'.status ≠ .connected
  | (c', some r) => Aside level c c' ∧ next r

theorem handleAck_settles (c : QUICConnection) (hasECN : Bool) (level : QUICLevel) (nowMs : Nat)
    (r : QUICReader) {next : QUICReader → Prop}
    (behind : ∀ fields, quicReadAckFrame r hasECN = some fields → next fields.2.2) :
    Settles level c next (c.handleAck hasECN level nowMs r) := by
  unfold handleAck
  cases fields : quicReadAckFrame r hasECN with
  | none => exact fail_status c _
  | some fields' =>
    simp only [decoded]
    by_cases unissued : (c.spaces.get level).nextPacketNumber ≤ (fields'.1.head?.map PacketRange.high).getD 0
    · rw [if_pos unissued]
      exact fail_status c _
    · rw [if_neg unissued]
      exact ⟨acceptAck_aside c _ _ _ level nowMs, behind fields' fields⟩

section
variable (P : Primitives)

theorem nextFrame_settles (c : QUICConnection) {level : QUICLevel} (nowMs : Nat) {fuel : Nat}
    {r : QUICReader} (acks : acksOnly level (fuel + 1) r = true) (more : r.isEmpty = false) :
    Settles level c (fun r => acksOnly level fuel r = true) (c.nextFrame P level nowMs r).1 := by
  unfold acksOnly at acks
  rw [more, Bool.false_or] at acks
  unfold nextFrame
  split at acks
  next r' type =>
    rw [type]
    exact ⟨fun _ _ => rfl, acks⟩
  next r' type =>
    rw [type]
    apply handleAck_settles
    intro fields read
    rw [read] at acks
    exact acks
  next r' type =>
    rw [type]
    apply handleAck_settles
    intro fields read
    rw [read] at acks
    exact acks
  next => cases acks

theorem frameLoop_acks (level : QUICLevel) (nowMs fuel : Nat) (c : QUICConnection)
    (ackEliciting : Bool) (r : QUICReader) (acks : acksOnly level fuel r = true) :
    Aside level c (frameLoop P level nowMs fuel c ackEliciting r).1 ∧
        (frameLoop P level nowMs fuel c ackEliciting r).2.isSome = true ∨
      (frameLoop P level nowMs fuel c ackEliciting r).1.status ≠ .connected := by
  induction fuel generalizing c ackEliciting r with
  | zero => exact .inl ⟨fun _ _ => rfl, rfl⟩
  | succ fuel ih =>
    unfold frameLoop
    by_cases done : r.isEmpty = true
    · rw [if_pos done]
      exact .inl ⟨fun _ _ => rfl, rfl⟩
    rw [if_neg done]
    have first := nextFrame_settles P c nowMs acks (by simpa using done)
    split
    next c1 _ stopped =>
      rw [stopped] at first
      exact .inr first
    next c1 r' eliciting went =>
      rw [went] at first
      rcases ih c1 (ackEliciting || eliciting) r' first.2 with ⟨aside, read⟩ | closed
      · exact .inl ⟨fun other apart => (aside other apart).trans (first.1 other apart), read⟩
      · exact .inr closed

def accepts (c : QUICConnection) (p : Bytes) (header : QUICPacketHeader) (level : QUICLevel)
    (nowMs : Nat) : Bool :=
  (!header.isLong || header.version == c.version) && (c.keys.get level).receive.isValid &&
    (c.openPacket P p header level nowMs).2.any fun packet =>
      !(c.spaces.get level).acks.contains packet.packetNumber

theorem validateAddress_space (c : QUICConnection) (level : QUICLevel) :
    (c.validateAddress level).spaces.get level = c.spaces.get level := by
  unfold validateAddress
  split_ifs with handshake
  · obtain ⟨rfl, -⟩ := handshake
    unfold discardSpace
    extract_lets pair c1
    split_ifs
    · rfl
    · have apart : QUICLevel.handshake ≠ .initial := by decide
      exact get_set_ne _ apart _
  · rfl

variable {c : QUICConnection}

theorem validateAddress_pending {other : QUICLevel} (quiet : (c.spaces.get other).ackPending = false)
    (level : QUICLevel) :
    ((c.validateAddress level).spaces.get other).ackPending = false := by
  unfold validateAddress discardSpace
  split_ifs with handshake
  · extract_lets pair c1
    split_ifs
    · exact quiet
    by_cases initial : other = .initial
    · subst initial
      rfl
    show ((c.spaces.set .initial _).get other).ackPending = false
    rw [get_set_ne _ initial]
    exact quiet
  · exact quiet

theorem recordArrival_pending (c : QUICConnection) (level : QUICLevel) (packetNumber : Nat)
    (ackEliciting : Bool) (nowMs : Nat) :
    ((c.recordArrival level packetNumber ackEliciting nowMs).spaces.get level).ackPending = true ∧
      Aside level c (c.recordArrival level packetNumber ackEliciting nowMs) := by
  unfold recordArrival
  extract_lets c1 c2
  have first : Aside level c c1 := by
    intro other apart
    simp only [c1]
    split_ifs
    · exact get_set_ne _ apart _
    · rfl
  refine ⟨?_, fun other apart => ?_⟩
  · show ((c2.spaces.set level _).get level).ackPending = true
    rw [get_set_self]
    split_ifs <;> rfl
  · exact (get_set_ne _ apart _).trans (first other apart)

/-- Processing the payload of such a packet either closes the connection or leaves an ACK pending, at the
level of the packet. -/
theorem processPayload_pending (c : QUICConnection) (level : QUICLevel) (packet : QUICProtect.Opened)
    (nowMs : Nat) (acks : elicitsNothing level packet.payload = true)
    (connected : (c.processPayload P level packet nowMs).status = .connected) :
    ((c.processPayload P level packet nowMs).spaces.get level).ackPending = true ∧
      Aside level c (c.processPayload P level packet nowMs) := by
  revert connected
  unfold processPayload
  extract_lets c1
  have frames : Aside level c1 (c1.processFrames P packet.payload level nowMs).1 ∧
      (c1.processFrames P packet.payload level nowMs).2.isSome = true ∨
        (c1.processFrames P packet.payload level nowMs).1.status ≠ .connected :=
    frameLoop_acks P level nowMs (packet.payload.length + 1) c1 false ⟨packet.payload, 0⟩ acks
  split
  next c2 stopped =>
    rw [stopped] at frames
    intro connected
    rcases frames with ⟨_, impossible⟩ | closing
    · cases impossible
    · exact absurd connected closing
  next c2 eliciting read =>
    rw [read] at frames
    intro connected
    have status : (c2.recordArrival level packet.packetNumber eliciting nowMs).status = c2.status := by
      unfold recordArrival
      extract_lets c3 c4
      show c3.status = c2.status
      simp only [c3]
      split_ifs <;> rfl
    obtain ⟨pending, recorded⟩ := recordArrival_pending c2 level packet.packetNumber eliciting nowMs
    rcases frames with ⟨aside, _⟩ | closing
    · exact ⟨pending, fun other apart => (recorded other apart).trans (aside other apart)⟩
    · exact absurd (status ▸ connected) closing

theorem acceptPacket_pending (quiet : ∀ level, (c.spaces.get level).ackPending = false) (level : QUICLevel)
    (packet : QUICProtect.Opened) (nowMs : Nat) (acks : elicitsNothing level packet.payload = true)
    (connected : (c.acceptPacket P level packet nowMs).status = .connected) (other : QUICLevel) :
    ((c.acceptPacket P level packet nowMs).spaces.get other).ackPending = true ↔
      other = level ∧ (c.spaces.get level).acks.contains packet.packetNumber = false := by
  have pending : ((c.validateAddress level).spaces.get other).ackPending = false :=
    validateAddress_pending (quiet other) level
  revert connected
  unfold acceptPacket
  extract_lets c1
  rw [validateAddress_space]
  by_cases known : (c.spaces.get level).acks.contains packet.packetNumber = true
  · rw [if_pos known]
    intro _
    simp [c1, pending, known]
  rw [if_neg known]
  intro connected
  obtain ⟨here, elsewhere⟩ := processPayload_pending P c1 level packet nowMs acks connected
  by_cases same : other = level
  · subst same
    simpa [here] using known
  · rw [elsewhere other same]
    simp [c1, pending, same]

theorem receivePacket_pending (quiet : ∀ level, (c.spaces.get level).ackPending = false) (p : Bytes)
    (header : QUICPacketHeader) (level : QUICLevel) (nowMs : Nat)
    (acks : ∀ packet, (c.openPacket P p header level nowMs).2 = some packet →
      elicitsNothing level packet.payload = true)
    (connected : (c.receivePacket P p header level nowMs).1.status = .connected) (other : QUICLevel) :
    ((c.receivePacket P p header level nowMs).1.spaces.get other).ackPending = true ↔
      other = level ∧ c.accepts P p header level nowMs = true := by
  revert connected
  unfold receivePacket accepts
  by_cases foreign : header.isLong = true ∧ header.version ≠ c.version
  · simp [foreign.1, foreign.2, quiet other]
  have versions : (!header.isLong || header.version == c.version) = true := by
    by_contra not
    simp only [Bool.or_eq_true, Bool.not_eq_true', beq_iff_eq, not_or, Bool.not_eq_false] at not
    exact foreign not
  rw [if_neg foreign, versions]
  cases valid : (c.keys.get level).receive.isValid with
  | false => simp [quiet other]
  | true =>
    have still := still_openPacket P c p header level nowMs valid
    generalize c.openPacket P p header level nowMs = result at still acks
    obtain ⟨c1, opened⟩ := result
    have spaces : c1.spaces = c.spaces := congrArg Transit.spaces still
    have silent : ∀ level, (c1.spaces.get level).ackPending = false := by
      intro level
      rw [spaces]
      exact quiet level
    cases opened with
    | none => simp [silent other]
    | some packet =>
      intro connected
      show ((c1.acceptPacket P level packet nowMs).spaces.get other).ackPending = true ↔ _
      rw [acceptPacket_pending P silent level packet nowMs (acks packet rfl) connected, spaces]
      simp

/-- Whether an ACK of a level could go out: the level may send, there is something to acknowledge, and
the packet fits in the datagram. -/
def canAcknowledge (c : QUICConnection) (level : QUICLevel) (capacity nowMs : Nat) : Bool :=
  c.maySend level && !(c.spaces.get level).acks.isEmpty &&
    decide (64 ≤ c.sendBudget capacity) && decide (c.ackSize level nowMs ≤ c.sendBudget capacity)

/-- A packet of ACK and PADDING frames for an idle connection stays unanswered exactly if it is not a new
packet, or an ACK could not be sent then at all. -/
theorem unanswered_iff (seals : P.Seals) (c : QUICConnection) (connected : c.status = .connected)
    (idle : c.hasOutput = false) (p : Bytes) (header : QUICPacketHeader) (level : QUICLevel)
    (nowMs : Nat)
    (acks : ∀ packet, (c.openPacket P p header level nowMs).2 = some packet →
      elicitsNothing level packet.payload = true)
    (stays : (c.receivePacket P p header level nowMs).1.status = .connected)
    (nothing : (c.receivePacket P p header level nowMs).1.owesFrames = false) (capacity later : Nat) :
    ((c.receivePacket P p header level nowMs).1.nextDatagram P capacity later).2.count = 0 ↔
      c.accepts P p header level nowMs = false ∨
        (c.receivePacket P p header level nowMs).1.canAcknowledge level capacity later = false := by
  have quiet : ∀ level, (c.spaces.get level).ackPending = false := by
    intro level
    rw [hasOutput_connected connected, Bool.or_eq_false_iff, List.any_eq_false] at idle
    simpa using idle.1 level (mem_levels level)
  have pending := receivePacket_pending P quiet p header level nowMs acks stays
  generalize c.accepts P p header level nowMs = new at pending
  generalize (c.receivePacket P p header level nowMs).1 = c1 at stays nothing pending
  rw [nextDatagram_silent_iff seals stays (empty_of_owesFrames nothing)]
  have tag : quicAEADTagLength = 16 := rfl
  have fits : ∀ other, c1.ackFits other later (c1.sendBudget capacity) 0 = true ↔
      (other = level ∧ new = true) ∧ c1.maySend other = true ∧
        (c1.spaces.get other).acks.isEmpty = false ∧ 48 ≤ c1.sendBudget capacity ∧
          c1.ackSize other later ≤ c1.sendBudget capacity := by
    intro other
    rw [← pending other]
    simp only [ackFits, Bool.and_eq_true, Bool.not_eq_true', decide_eq_true_eq, Nat.zero_add, tag]
    tauto
  have can : c1.canAcknowledge level capacity later = true ↔ c1.maySend level = true ∧
      (c1.spaces.get level).acks.isEmpty = false ∧ 64 ≤ c1.sendBudget capacity ∧
        c1.ackSize level later ≤ c1.sendBudget capacity := by
    simp only [canAcknowledge, Bool.and_eq_true, Bool.not_eq_true', decide_eq_true_eq, and_assoc]
  constructor
  · intro silent
    by_contra answered
    simp only [not_or, Bool.not_eq_false, can] at answered
    obtain ⟨accepted, may, some, budget, size⟩ := answered
    rcases silent with narrow | none
    · omega
    have not := none level (mem_levels level)
    have fit := (fits level).mpr ⟨⟨rfl, accepted⟩, may, some, by omega, size⟩
    cases not.symm.trans fit
  · intro cannot
    by_cases narrow : c1.sendBudget capacity < 64
    · exact .inl narrow
    refine .inr fun other _ => Bool.eq_false_iff.mpr fun fit => ?_
    obtain ⟨⟨rfl, accepted⟩, may, some, -, size⟩ := (fits other).mp fit
    have able := can.mpr ⟨may, some, by omega, size⟩
    rw [accepted, able] at cannot
    simp at cannot

end
end QUICConnection

namespace World

/-- A handshake whose last message comes in a 1-RTT packet, until the server has nothing more to send. -/
def settled : List Op :=
  [Client.hello, .nextDatagram 1200 1,
    .receive (Client.shortPacket 0 (Client.cryptoFrame (20 :: lengthPrefixed 3 (zeros 32)))) 2,
    .nextDatagram 1200 2]

/-- The header of a client's 1-RTT packet. -/
def shortHeader (p : Bytes) : QUICPacketHeader := QUICPacket.parseHeader p 0

/-- A packet of padding whose number was received before stays unanswered. -/
theorem unanswered_iff_duplicate :
    let p := Client.shortPacket 0 (zeros 5)
    let c := (start.run .transparent settled).conn
    c.status = .connected ∧ c.hasOutput = false ∧
      ((c.receivePacket .transparent p (shortHeader p) .application 3).1.nextDatagram
        .transparent 1200 3).2.count = 0 := by
  have connected : (start.run .transparent settled).conn.status = .connected := by decide +kernel
  have idle : (start.run .transparent settled).conn.hasOutput = false := by decide +kernel
  have acks : ((start.run .transparent settled).conn.openPacket .transparent
      (Client.shortPacket 0 (zeros 5)) (shortHeader (Client.shortPacket 0 (zeros 5))) .application
        3).2.all (fun packet => QUICConnection.elicitsNothing .application packet.payload) = true := by
    decide +kernel
  refine ⟨connected, idle, (QUICConnection.unanswered_iff .transparent Primitives.transparent_seals _
    connected idle _ _ .application 3 ?_ ?_ ?_ 1200 3).mpr (.inl ?_)⟩
  · intro packet opened
    rw [opened] at acks
    exact acks
  · decide +kernel
  · decide +kernel
  · decide +kernel

/-- A new packet with nothing but an ACK frame is answered, with a packet of 23 bytes that has nothing
but an ACK frame either. -/
theorem ack_answered :
    let p := Client.shortPacket 1 [2, 0, 0, 0, 0]
    let c := (start.run .transparent settled).conn
    let c1 := (c.receivePacket .transparent p (shortHeader p) .application 3).1
    c.status = .connected ∧ c.hasOutput = false ∧ QUICConnection.elicitsNothing .application [2, 0, 0, 0, 0] = true ∧
      c1.status = .connected ∧ c1.owesFrames = false ∧
      (c1.nextDatagram .transparent 1200 3).2 = ⟨23, [0x40, 1] ++ [2, 1, 0, 0, 0] ++ zeros 16⟩ ∧
      QUICConnection.elicitsNothing .application [2, 1, 0, 0, 0] = true := by
  decide +kernel

end World
end AvianCore.Quic
