import AvianCore.Quic.Packet
import AvianCore.Quic.Stream

/-!
Sent packets, the packet number spaces, round-trip estimation with NewReno, and loss detection.
Counters the source keeps as signed integers are integers here.
-/

namespace AvianCore.Quic
open List

/-- A range of one stream that a packet carried. -/
structure SentStreamFrame where
  id : Nat
  low : Nat
  high : Nat
  fin : Bool
  deriving DecidableEq, Repr

/-- What a packet carried, so that it can be sent again. -/
structure QUICSentFrames where
  crypto : Option ByteRange := none
  streams : List SentStreamFrame := []
  handshakeDone : Bool := false
  maxData : Bool := false
  maxStreamsBidi : Bool := false
  maxStreamsUni : Bool := false
  maxStreamData : List Nat := []
  resetStream : List Nat := []
  stopSending : List Nat := []
  pathResponse : Option Bytes := none
  ping : Bool := false
  deriving DecidableEq, Repr

structure QUICSentPacket where
  packetNumber : Nat
  sentAtMs : Nat
  size : Nat
  ackEliciting : Bool
  inFlight : Bool
  frames : QUICSentFrames
  largestAcked : Option Nat
  deriving DecidableEq, Repr

/-- One packet number space. The outstanding packets are `sent` from `sentHead` on. -/
structure QUICPacketSpace where
  nextPacketNumber : Nat := 0
  largestReceived : Int := -1
  largestReceivedAtMs : Nat := 0
  acks : QUICAckRanges := {}
  ackPending : Bool := false
  ackElicitingPending : Bool := false
  ackDeadlineMs : Nat := 0
  sent : List QUICSentPacket := []
  sentHead : Nat := 0
  largestAckedPacket : Option Nat := none
  lossTimeMs : Nat := 0
  timeOfLastAckElicitingMs : Nat := 0
  ackElicitingInFlight : Int := 0
  deriving DecidableEq, Repr

namespace QUICPacketSpace

def outstanding (space : QUICPacketSpace) : Nat := space.sent.length - space.sentHead

def record (space : QUICPacketSpace) (packet : QUICSentPacket) : QUICPacketSpace :=
  let space := { space with
    sent := space.sent ++ [packet]
    nextPacketNumber := addWrapping packet.packetNumber 1 }
  if packet.ackEliciting then
    { space with
      ackElicitingInFlight := space.ackElicitingInFlight + 1
      timeOfLastAckElicitingMs := packet.sentAtMs }
  else space

/-- The binary search of `endOfPackets`. -/
def searchEnd (sent : List QUICSentPacket) (number : Nat) : Nat → Nat → Nat → Nat
  | 0, low, _ => low
  | fuel + 1, low, high =>
    if low < high then
      let mid := (low + high) / 2
      if ((sent[mid]?).map QUICSentPacket.packetNumber).getD 0 ≤ number then
        searchEnd sent number fuel (mid + 1) high
      else searchEnd sent number fuel low mid
    else low

/-- One past the last outstanding packet numbered `number` or lower. -/
def endOfPackets (space : QUICPacketSpace) (number : Nat) : Nat :=
  searchEnd space.sent number space.sent.length space.sentHead space.sent.length

/-- Releases the frames of the slots before `index` and from `head` on. -/
def releaseSlots (sent : List QUICSentPacket) (head index : Nat) : List QUICSentPacket :=
  sent.take head ++ (((sent.take index).drop head).map fun packet => { packet with frames := {} })
    ++ sent.drop (max head index)

/-- Forgets everything before `index`, whose outcome has been settled. -/
def advanceHead (space : QUICPacketSpace) (index : Nat) : QUICPacketSpace :=
  let sent := releaseSlots space.sent space.sentHead index
  if index = sent.length then { space with sent := [], sentHead := 0 }
  else if 1024 ≤ index ∧ sent.length ≤ index * 2 then
    { space with sent := sent.drop index, sentHead := 0 }
  else { space with sent := sent, sentHead := index }

def unsettled (space : QUICPacketSpace) : List QUICSentPacket := space.sent.drop space.sentHead

variable (sent : List QUICSentPacket)

theorem le_searchEnd (number fuel low high : Nat) : low ≤ searchEnd sent number fuel low high := by
  induction fuel generalizing low high with
  | zero => exact le_rfl
  | succ fuel ih =>
    unfold searchEnd
    extract_lets mid
    split_ifs with more below
    · exact le_trans (by omega) (ih (mid + 1) high)
    · exact ih low mid
    · exact le_rfl

variable (space : QUICPacketSpace)

theorem record_unsettled (packet : QUICSentPacket) : (space.record packet).unsettled ⊆ space.unsettled ++ [packet] := by
  have both : (space.record packet).unsettled = (space.sent ++ [packet]).drop space.sentHead := by
    unfold record
    extract_lets recorded
    split_ifs <;> rfl
  rw [both, drop_append]
  exact append_subset.mpr ⟨subset_append_left _ _, List.Subset.trans (List.drop_subset _ _) (subset_append_right _ _)⟩

theorem releaseSlots_drop {head index : Nat} (ordered : head ≤ index) :
    (releaseSlots sent head index).drop index = sent.drop index := by
  unfold releaseSlots
  rw [max_eq_right ordered]
  rcases Nat.le_total index sent.length with short | long
  · apply drop_left'
    simp only [length_append, length_map, length_drop, length_take]
    omega
  rw [drop_eq_nil_of_le long, append_nil]
  apply drop_eq_nil_of_le
  simp only [length_append, length_map, length_drop, length_take]
  omega

theorem length_releaseSlots {head index : Nat} (ordered : head ≤ index) :
    (releaseSlots sent head index).length = sent.length := by
  unfold releaseSlots
  rw [max_eq_right ordered]
  simp only [length_append, length_map, length_drop, length_take]
  omega

theorem advanceHead_unsettled {index : Nat} (ordered : space.sentHead ≤ index) :
    (space.advanceHead index).unsettled = space.sent.drop index := by
  unfold advanceHead
  extract_lets sent
  have length : sent.length = space.sent.length := length_releaseSlots space.sent ordered
  have behind : sent.drop index = space.sent.drop index := releaseSlots_drop space.sent ordered
  split_ifs with all
  · simp [unsettled, drop_eq_nil_of_le, all, length]
  · simp [unsettled, behind]
  · exact behind

theorem advanceHead_acks (index : Nat) : (space.advanceHead index).acks = space.acks := by
  unfold advanceHead
  extract_lets sent
  split_ifs <;> rfl

end QUICPacketSpace

structure QUICRecovery where
  latestRTTMs : Nat := 0
  smoothedRTTMs : Nat := 333
  rttVarianceMs : Nat := 166
  minRTTMs : Nat := 0
  haveRTTSample : Bool := false
  peerMaxAckDelayMs : Nat := 25
  congestionWindow : Int := 12000
  bytesInFlight : Int := 0
  slowStartThreshold : Int := 2 ^ 63 - 1
  recoveryStartMs : Nat := 0
  ptoCount : Nat := 0
  probeAllowance : Int := 0
  deriving DecidableEq, Repr

namespace QUICRecovery

def packetThreshold : Nat := 3
def timeThresholdNumerator : Nat := 9
def timeThresholdDenominator : Nat := 8
def granularityMs : Nat := 1

/-- The datagram size is the default throughout: nothing in the connection changes it. -/
def maxDatagramSize (_ : QUICRecovery) : Nat := QUICPacket.defaultMaxDatagramSize

def canSend (r : QUICRecovery) : Bool := r.bytesInFlight < r.congestionWindow

def onPacketSent (r : QUICRecovery) (packet : QUICSentPacket) : QUICRecovery :=
  if packet.inFlight then { r with bytesInFlight := r.bytesInFlight + packet.size } else r

def updateRTT (r : QUICRecovery) (latest ackDelay : Nat) : QUICRecovery :=
  if !r.haveRTTSample then
    { r with
      latestRTTMs := latest
      minRTTMs := latest
      smoothedRTTMs := latest
      rttVarianceMs := latest / 2
      haveRTTSample := true }
  else
    let minRTTMs := min r.minRTTMs latest
    let delay := min ackDelay r.peerMaxAckDelayMs
    let adjusted := if minRTTMs + delay ≤ latest then latest - delay else latest
    let difference := if adjusted < r.smoothedRTTMs then r.smoothedRTTMs - adjusted
      else adjusted - r.smoothedRTTMs
    { r with
      latestRTTMs := latest
      minRTTMs := minRTTMs
      rttVarianceMs := (3 * r.rttVarianceMs + difference) / 4
      smoothedRTTMs := (7 * r.smoothedRTTMs + adjusted) / 8 }

def lossDelayMs (r : QUICRecovery) : Nat :=
  max (max r.latestRTTMs r.smoothedRTTMs * timeThresholdNumerator / timeThresholdDenominator)
    granularityMs

/-- The probe timeout. The shift drops what it pushes out of a 64-bit word. -/
def ptoMs (r : QUICRecovery) (includeMaxAckDelay : Bool) : Nat :=
  let pto := r.smoothedRTTMs + max (4 * r.rttVarianceMs) granularityMs
  let pto := if includeMaxAckDelay then pto + r.peerMaxAckDelayMs else pto
  pto * 2 ^ min r.ptoCount 20 % 2 ^ 64

def onPacketAcked (r : QUICRecovery) (packet : QUICSentPacket) : QUICRecovery :=
  if packet.inFlight then
    let r := { r with bytesInFlight := r.bytesInFlight - packet.size }
    if packet.sentAtMs ≤ r.recoveryStartMs then r
    else if r.congestionWindow < r.slowStartThreshold then
      { r with congestionWindow := r.congestionWindow + packet.size }
    else
      { r with congestionWindow := r.congestionWindow
          + (r.maxDatagramSize : Int) * packet.size / max r.congestionWindow 1 }
  else r

def onPacketsAcked (r : QUICRecovery) (packets : List QUICSentPacket) : QUICRecovery := packets.foldl onPacketAcked r

def onPacketsLost (r : QUICRecovery) (packets : List QUICSentPacket) (nowMs : Nat) : QUICRecovery :=
  let inFlight := packets.filter QUICSentPacket.inFlight
  let largestLostSentAt := inFlight.foldl (fun largest packet => max largest packet.sentAtMs) 0
  let r := { r with
    bytesInFlight := inFlight.foldl (fun sum packet => sum - (packet.size : Int)) r.bytesInFlight }
  if largestLostSentAt = 0 ∨ largestLostSentAt ≤ r.recoveryStartMs then r
  else
    let window := max (r.congestionWindow / 2) (2 * (r.maxDatagramSize : Int))
    { r with
      recoveryStartMs := nowMs
      congestionWindow := window
      slowStartThreshold := window }

def onProbeTimeout (r : QUICRecovery) : QUICRecovery := { r with ptoCount := r.ptoCount + 1, probeAllowance := 2 }

def onAckReceived (r : QUICRecovery) : QUICRecovery := { r with ptoCount := 0 }

end QUICRecovery

namespace QUICLossDetection

structure Result where
  acked : List QUICSentPacket := []
  lost : List QUICSentPacket := []
  deriving DecidableEq, Repr

/-- The working values of the two downward passes: the array, the slot that the next packet
to stay is packed above, and the packets taken out, in send order. -/
structure Packing where
  sent : List QUICSentPacket
  keep : Nat
  taken : List QUICSentPacket := []
  deriving DecidableEq, Repr

def Packing.take (pass : Packing) (packet : QUICSentPacket) : Packing := { pass with taken := packet :: pass.taken }

/-- Moves a packet that stays up against the ones that stayed before it. -/
def Packing.stay (pass : Packing) (i : Nat) (packet : QUICSentPacket) : Packing :=
  let keep := pass.keep - 1
  { pass with
    keep := keep
    sent := if keep = i then pass.sent else pass.sent.set keep packet }

/-- Walks down from slot `base + count` to slot `base`, taking out the packets `out` selects. -/
def packDown (out : QUICSentPacket → Bool) (base : Nat) : Nat → Packing → Packing
  | 0, pass => pass
  | count + 1, pass =>
    match pass.sent[base + count]? with
    | none => packDown out base count pass
    | some packet =>
      packDown out base count
        (if out packet then pass.take packet else pass.stay (base + count) packet)

def isAcked (ranges : List PacketRange) (largestAcked : Nat) (packet : QUICSentPacket) : Bool :=
  packet.packetNumber ≤ largestAcked && ranges.any fun range => range.contains packet.packetNumber

def isLost (threshold delay nowMs : Nat) (packet : QUICSentPacket) : Bool :=
  packet.packetNumber < threshold &&
    (QUICRecovery.packetThreshold ≤ threshold - packet.packetNumber
      || delay ≤ nowMs - packet.sentAtMs)

def earliestLoss (threshold delay : Nat) (survivors : List QUICSentPacket) : Nat :=
  survivors.foldl (fun earliest packet =>
    if packet.packetNumber < threshold then
      let at_ := packet.sentAtMs + delay
      if earliest = 0 ∨ at_ < earliest then at_ else earliest
    else earliest) 0

def countEliciting (packets : List QUICSentPacket) : Int := (packets.filter QUICSentPacket.ackEliciting).length

/-- Each acknowledged packet that carried an ACK lets older ranges be forgotten. -/
def trimAcks (acks : QUICAckRanges) (acked : List QUICSentPacket) : QUICAckRanges :=
  acked.foldl (fun acks packet =>
    match packet.largestAcked with
    | some covered => acks.removeUpTo covered
    | none => acks) acks

/-- The round-trip sample comes from the largest acknowledged packet alone. -/
def sampleRTT (recovery : QUICRecovery) (acked : List QUICSentPacket)
    (largestAcked ackDelayMs nowMs : Nat) : QUICRecovery :=
  match acked.find? fun packet => packet.packetNumber == largestAcked with
  | some largest =>
    if largest.ackEliciting then recovery.updateRTT (nowMs - largest.sentAtMs) ackDelayMs
    else recovery
  | none => recovery

def onAck (space : QUICPacketSpace) (recovery : QUICRecovery) (ranges : List PacketRange)
    (largestAcked ackDelayMs nowMs : Nat) : Result × QUICPacketSpace × QUICRecovery :=
  if space.outstanding = 0 then ({}, space, recovery)
  else
    let threshold := max (space.largestAckedPacket.getD largestAcked) largestAcked
    let head := space.sentHead
    let «end» := space.endOfPackets threshold
    if «end» = head then ({}, space, recovery)
    else
      let first := packDown (isAcked ranges largestAcked) head («end» - head) ⟨space.sent, «end», []⟩
      let acked := first.taken
      if acked.isEmpty then ({}, { space with sent := first.sent }, recovery)
      else
        let recovery := (sampleRTT recovery acked largestAcked ackDelayMs nowMs).onAckReceived
        let acks := trimAcks space.acks acked
        -- the delay is read after the round-trip sample
        let delay := recovery.lossDelayMs
        let survivors := first.keep
        let second := packDown (isLost threshold delay nowMs) survivors («end» - survivors)
          ⟨first.sent, «end», []⟩
        let lost := second.taken
        let staying := (second.sent.take «end»).drop second.keep
        let space := { space with
          largestAckedPacket := some threshold
          acks := acks
          ackElicitingInFlight := space.ackElicitingInFlight - countEliciting acked
            - countEliciting lost
          sent := second.sent }
        let space := { space.advanceHead second.keep with
          lossTimeMs := earliestLoss threshold delay staying.reverse }
        let recovery := (recovery.onPacketsAcked acked).onPacketsLost lost nowMs
        ({ acked := acked, lost := lost }, space, recovery)

/-- The slots from `head` on and the packets taken out all come from `packets`. -/
structure Packing.Within (pass : Packing) (packets : List QUICSentPacket) (head : Nat) : Prop where
  slots : ∀ i packet, head ≤ i → pass.sent[i]? = some packet → packet ∈ packets
  taken : pass.taken ⊆ packets

variable {pass : Packing} {packets : List QUICSentPacket} {head : Nat}

theorem Packing.Within.drop_subset {index : Nat} (within : pass.Within packets head) (ordered : head ≤ index) :
    pass.sent.drop index ⊆ packets := by
  intro packet member
  obtain ⟨i, found⟩ := mem_iff_getElem?.mp member
  rw [List.getElem?_drop] at found
  exact within.slots (index + i) packet (by omega) found

theorem Packing.Within.take (within : pass.Within packets head) {packet : QUICSentPacket} (member : packet ∈ packets) :
    (pass.take packet).Within packets head :=
  ⟨within.slots, cons_subset.mpr ⟨member, within.taken⟩⟩

theorem Packing.Within.stay (within : pass.Within packets head) {packet : QUICSentPacket}
    (member : packet ∈ packets) (i : Nat) : (pass.stay i packet).Within packets head := by
  refine ⟨fun j found later slot => ?_, within.taken⟩
  unfold Packing.stay at slot
  extract_lets keep at slot
  split_ifs at slot
  · exact within.slots j found later slot
  rw [List.getElem?_set] at slot
  split_ifs at slot
  · simp only [Option.some.injEq] at slot
    exact slot ▸ member
  · exact within.slots j found later slot

theorem packDown_within (out : QUICSentPacket → Bool) (packets : List QUICSentPacket)
    {base : Nat} (ordered : head ≤ base) (count : Nat) (pass : Packing)
    (within : pass.Within packets head) : (packDown out base count pass).Within packets head := by
  induction count generalizing pass with
  | zero => exact within
  | succ count ih =>
    unfold packDown
    split
    · exact ih pass within
    next packet slot =>
      have member := within.slots (base + count) packet (by omega) slot
      split_ifs
      · exact ih _ (within.take member)
      · exact ih _ (within.stay member _)

theorem packDown_keep (out : QUICSentPacket → Bool) (base count : Nat) (pass : Packing) :
    pass.keep - count ≤ (packDown out base count pass).keep := by
  induction count generalizing pass with
  | zero => exact Nat.sub_le _ _
  | succ count ih =>
    unfold packDown
    split
    · exact le_trans (by omega) (ih pass)
    next packet _ =>
      split_ifs
      · exact le_trans (by simp [Packing.take]; omega) (ih (pass.take packet))
      · exact le_trans (by simp [Packing.stay]; omega) (ih (pass.stay (base + count) packet))

/-- Only outstanding packets are settled, and the ranges are trimmed by the acknowledged ones. -/
structure Settles (space : QUICPacketSpace) (result : Result) (after : QUICPacketSpace) : Prop where
  acked : result.acked ⊆ space.unsettled
  lost : result.lost ⊆ space.unsettled
  rest : after.unsettled ⊆ space.unsettled
  acks : after.acks = trimAcks space.acks result.acked

variable (space : QUICPacketSpace)

theorem Settles.none : Settles space {} space := ⟨nil_subset _, nil_subset _, List.Subset.refl _, rfl⟩

theorem onAck_settles (recovery : QUICRecovery) (ranges : List PacketRange) (largestAcked ackDelayMs nowMs : Nat) :
    Settles space (onAck space recovery ranges largestAcked ackDelayMs nowMs).1
      (onAck space recovery ranges largestAcked ackDelayMs nowMs).2.1 := by
  have start : ∀ index, (⟨space.sent, index, []⟩ : Packing).Within space.unsettled space.sentHead := by
    refine fun index => ⟨fun i packet later slot => ?_, nil_subset _⟩
    obtain ⟨extra, rfl⟩ := Nat.exists_eq_add_of_le later
    rw [← List.getElem?_drop] at slot
    exact mem_of_getElem? slot
  unfold onAck
  split
  · exact Settles.none space
  extract_lets threshold head «end» first acked recovery acks delay survivors second lost staying
    settled advanced after recovered
  have reached : head ≤ «end» := QUICPacketSpace.le_searchEnd _ _ _ _ _
  have firstWithin : first.Within space.unsettled head := packDown_within _ _ le_rfl _ _ (start «end»)
  have firstKeep : head ≤ survivors := by
    have kept := packDown_keep (isAcked ranges largestAcked) head («end» - head) ⟨space.sent, «end», []⟩
    exact le_trans (by simp only; omega) kept
  have secondWithin : second.Within space.unsettled head :=
    packDown_within _ _ firstKeep _ _ ⟨firstWithin.slots, nil_subset _⟩
  have secondKeep : head ≤ second.keep := by
    have kept := packDown_keep (isLost threshold delay nowMs) survivors («end» - survivors) ⟨first.sent, «end», []⟩
    exact le_trans (by simp only; omega) kept
  split
  · exact Settles.none space
  split
  · exact ⟨nil_subset _, nil_subset _, firstWithin.drop_subset le_rfl, rfl⟩
  refine ⟨firstWithin.taken, secondWithin.taken, ?_, ?_⟩
  · have behind : after.unsettled = second.sent.drop second.keep :=
      QUICPacketSpace.advanceHead_unsettled settled secondKeep
    rw [behind]
    exact secondWithin.drop_subset secondKeep
  · exact QUICPacketSpace.advanceHead_acks settled second.keep

def abandon (space : QUICPacketSpace) (recovery : QUICRecovery) : QUICPacketSpace × QUICRecovery :=
  let lost := (space.sent.drop space.sentHead).filter QUICSentPacket.inFlight
  ({ space with sent := [], sentHead := 0, ackElicitingInFlight := 0 },
    { recovery with
      bytesInFlight := lost.foldl (fun sum packet => sum - (packet.size : Int))
        recovery.bytesInFlight })

/-- Whether a packet is old enough, or far enough behind, with no acknowledgement to go on. -/
def isOverdue (threshold : Option Nat) (delay nowMs : Nat) (packet : QUICSentPacket) : Bool :=
  delay ≤ nowMs - packet.sentAtMs ||
    match threshold with
    | some threshold => packet.packetNumber < threshold &&
        QUICRecovery.packetThreshold ≤ threshold - packet.packetNumber
    | none => false

def onLossTimer (space : QUICPacketSpace) (recovery : QUICRecovery) (nowMs : Nat) :
    List QUICSentPacket × QUICPacketSpace × QUICRecovery :=
  let delay := recovery.lossDelayMs
  let lost := (space.sent.drop space.sentHead).takeWhile
    (isOverdue space.largestAckedPacket delay nowMs)
  let space := { space with
    ackElicitingInFlight := space.ackElicitingInFlight - countEliciting lost }
  let space := space.advanceHead (space.sentHead + lost.length)
  let space := { space with
    lossTimeMs := match space.sent[space.sentHead]? with
      | some oldest => oldest.sentAtMs + delay
      | none => 0 }
  (lost, space, recovery.onPacketsLost lost nowMs)

theorem onLossTimer_settles (recovery : QUICRecovery) (nowMs : Nat) :
    Settles space { lost := (onLossTimer space recovery nowMs).1 } (onLossTimer space recovery nowMs).2.1 := by
  unfold onLossTimer
  extract_lets delay lost counted advanced after
  refine ⟨nil_subset _, (List.takeWhile_prefix _).subset, ?_, ?_⟩
  · have behind : after.unsettled = space.sent.drop (space.sentHead + lost.length) :=
      QUICPacketSpace.advanceHead_unsettled counted (Nat.le_add_right _ _)
    rw [behind, ← drop_drop]
    exact List.drop_subset _ _
  · exact QUICPacketSpace.advanceHead_acks counted _

end QUICLossDetection
end AvianCore.Quic
