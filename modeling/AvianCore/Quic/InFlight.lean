import AvianCore.Quic.Settlement

/-!
Counting packets in flight. A packet leaves a space by acknowledgement, by ordering, by age or by the
loss timer; each time the packets that leave and the ones that stay are the ones that were there, and
the counters fall by what left.
-/

namespace AvianCore.Quic

def QUICSentPacket.flightSize (packet : QUICSentPacket) : Int := if packet.inFlight then packet.size else 0

namespace QUICLossDetection

def inFlightBytes (packets : List QUICSentPacket) : Int := (packets.map QUICSentPacket.flightSize).sum

@[simp] theorem inFlightBytes_nil : inFlightBytes [] = 0 := rfl

theorem inFlightBytes_append (first second : List QUICSentPacket) :
    inFlightBytes (first ++ second) = inFlightBytes first + inFlightBytes second := by
  simp [inFlightBytes]

theorem inFlightBytes_nonneg (packets : List QUICSentPacket) : 0 ≤ inFlightBytes packets := by
  apply List.sum_nonneg
  intro weight member
  obtain ⟨packet, -, rfl⟩ := List.mem_map.mp member
  unfold QUICSentPacket.flightSize
  split_ifs <;> omega

theorem inFlightBytes_perm {first second : List QUICSentPacket} (same : first.Perm second) :
    inFlightBytes first = inFlightBytes second := (same.map _).sum_eq

theorem countEliciting_append (first second : List QUICSentPacket) :
    countEliciting (first ++ second) = countEliciting first + countEliciting second := by
  simp [countEliciting]

theorem countEliciting_perm {first second : List QUICSentPacket} (same : first.Perm second) :
    countEliciting first = countEliciting second := by
  unfold countEliciting
  rw [(same.filter _).length_eq]

/-- The packets of a space, apart: those that are acknowledged, those that are lost, those that
stay. -/
structure Parts (space : QUICPacketSpace) (acked lost : List QUICSentPacket) (after : QUICPacketSpace) :
    Prop where
  all : (acked ++ lost ++ after.unsettled).Perm space.unsettled
  order : after.unsettled.Sublist space.unsettled
  counted : after.ackElicitingInFlight = space.ackElicitingInFlight - countEliciting acked -
    countEliciting lost
  next : after.nextPacketNumber = space.nextPacketNumber
  inside : after.sentHead ≤ after.sent.length

variable {space after : QUICPacketSpace} {recovery recovered : QUICRecovery} {ranges : List PacketRange}
  {largestAcked ackDelayMs nowMs : Nat} {result : Result}

theorem Acknowledges.parts (settles : Acknowledges space recovery ranges largestAcked ackDelayMs nowMs
    result after recovered) : Parts space result.acked result.lost after where
  all := by
    rw [settles.acked, settles.lost, settles.staying, ← seen_append_unseen space, ← List.append_assoc]
    apply List.Perm.append_right
    rw [List.append_assoc]
    exact ((List.filter_append_perm _ _).append_left _).trans (List.filter_append_perm _ _)
  order := by
    rw [settles.staying, ← seen_append_unseen space]
    exact (List.filter_sublist.trans List.filter_sublist).append_right _
  counted := settles.counted
  next := settles.next
  inside := settles.inside

theorem onLossTimer_parts (space : QUICPacketSpace) (recovery : QUICRecovery) (nowMs : Nat)
    (inside : space.sentHead ≤ space.sent.length) :
    Parts space [] (onLossTimer space recovery nowMs).1 (onLossTimer space recovery nowMs).2.1 ∧
      (onLossTimer space recovery nowMs).2.2 = recovery.onPacketsLost (onLossTimer space recovery nowMs).1 nowMs := by
  unfold onLossTimer
  extract_lets delay lost counted advanced after
  obtain ⟨counter, next, -⟩ := advanceHead_fields counted (space.sentHead + lost.length)
  have short : lost.length ≤ space.sent.length - space.sentHead := by
    have prefixed := (List.takeWhile_prefix (l := space.sent.drop space.sentHead)
      (isOverdue space.largestAckedPacket delay nowMs)).length_le
    rw [List.length_drop] at prefixed
    exact prefixed
  have behind : after.unsettled = space.unsettled.drop lost.length := by
    show (counted.advanceHead _).unsettled = _
    rw [QUICPacketSpace.advanceHead_unsettled counted (Nat.le_add_right _ _), ← List.drop_drop]
    rfl
  have front : lost = space.unsettled.take lost.length := List.prefix_iff_eq_take.mp (List.takeWhile_prefix _)
  have still : (counted.advanceHead (space.sentHead + lost.length)).sentHead ≤
      (counted.advanceHead (space.sentHead + lost.length)).sent.length := by
    apply QUICPacketSpace.advanceHead_inside counted (Nat.le_add_right _ _)
    show space.sentHead + lost.length ≤ space.sent.length
    omega
  refine ⟨⟨?_, ?_, ?_, next, still⟩, rfl⟩
  · rw [List.nil_append, behind]
    nth_rewrite 1 [front]
    rw [List.take_append_drop]
  · rw [behind]
    exact List.drop_sublist _ _
  · show (counted.advanceHead _).ackElicitingInFlight = _
    rw [counter]
    show space.ackElicitingInFlight - countEliciting lost = _
    simp [countEliciting]

end QUICLossDetection

namespace QUICRecovery
open QUICLossDetection

def minimumWindow (r : QUICRecovery) : Int := 2 * (r.maxDatagramSize : Int)

variable (r : QUICRecovery)

theorem minimumWindow_nonneg : 0 ≤ r.minimumWindow := by
  unfold minimumWindow
  omega

variable (packets : List QUICSentPacket)

theorem foldl_sub_size (bytes : Int) :
    (packets.filter QUICSentPacket.inFlight).foldl (fun sum packet => sum - (packet.size : Int)) bytes =
      bytes - inFlightBytes packets := by
  induction packets generalizing bytes with
  | nil => simp
  | cons packet rest ih =>
    by_cases flying : packet.inFlight = true
    · rw [List.filter_cons_of_pos flying, List.foldl_cons, ih]
      simp [inFlightBytes, QUICSentPacket.flightSize, flying]
      omega
    · rw [List.filter_cons_of_neg flying, ih]
      simp [inFlightBytes, QUICSentPacket.flightSize, flying]

theorem onPacketAcked_counts (packet : QUICSentPacket) :
    (r.onPacketAcked packet).bytesInFlight = r.bytesInFlight - packet.flightSize ∧
      (0 ≤ r.congestionWindow → r.congestionWindow ≤ (r.onPacketAcked packet).congestionWindow) := by
  unfold onPacketAcked QUICSentPacket.flightSize
  by_cases flying : packet.inFlight = true
  · simp only [flying, if_true]
    split_ifs
    · exact ⟨rfl, fun _ => le_rfl⟩
    · exact ⟨rfl, fun _ => by show r.congestionWindow ≤ r.congestionWindow + packet.size; omega⟩
    refine ⟨rfl, fun _ => ?_⟩
    have grown : 0 ≤ (r.maxDatagramSize : Int) * packet.size / max r.congestionWindow 1 := by
      apply Int.ediv_nonneg
      · exact_mod_cast Nat.zero_le _
      · exact le_trans (by decide) (le_max_right _ _)
    show r.congestionWindow ≤ r.congestionWindow + (r.maxDatagramSize : Int) * packet.size / max r.congestionWindow 1
    omega
  · simp [flying]

theorem onPacketsAcked_counts : (r.onPacketsAcked packets).bytesInFlight = r.bytesInFlight - inFlightBytes packets ∧
      (0 ≤ r.congestionWindow → r.congestionWindow ≤ (r.onPacketsAcked packets).congestionWindow) := by
  unfold onPacketsAcked
  induction packets generalizing r with
  | nil => simp
  | cons packet rest ih =>
    obtain ⟨bytes, window⟩ := onPacketAcked_counts r packet
    obtain ⟨restBytes, restWindow⟩ := ih (r.onPacketAcked packet)
    rw [List.foldl_cons]
    constructor
    · rw [restBytes, bytes]
      simp [inFlightBytes]
      omega
    · intro nonneg
      have first := window nonneg
      exact first.trans (restWindow (nonneg.trans first))

theorem onPacketsLost_counts (nowMs : Nat) :
    (r.onPacketsLost packets nowMs).bytesInFlight = r.bytesInFlight - inFlightBytes packets ∧
      (r.minimumWindow ≤ r.congestionWindow → r.minimumWindow ≤ (r.onPacketsLost packets nowMs).congestionWindow) := by
  unfold onPacketsLost
  extract_lets inFlight largestLostSentAt counted window
  have bytes : counted.bytesInFlight = r.bytesInFlight - inFlightBytes packets := foldl_sub_size packets r.bytesInFlight
  split_ifs
  · exact ⟨bytes, fun enough => enough⟩
  · exact ⟨bytes, fun _ => le_max_right _ _⟩

theorem updateRTT_counts (latest ackDelay : Nat) : (r.updateRTT latest ackDelay).bytesInFlight = r.bytesInFlight ∧
    (r.updateRTT latest ackDelay).congestionWindow = r.congestionWindow := by
  unfold updateRTT
  split_ifs <;> exact ⟨rfl, rfl⟩

theorem sampleRTT_counts (acked : List QUICSentPacket) (largestAcked ackDelayMs nowMs : Nat) :
    (sampleRTT r acked largestAcked ackDelayMs nowMs).bytesInFlight = r.bytesInFlight ∧
      (sampleRTT r acked largestAcked ackDelayMs nowMs).congestionWindow = r.congestionWindow := by
  unfold sampleRTT
  split
  · split_ifs
    · exact updateRTT_counts r _ _
    · exact ⟨rfl, rfl⟩
  · exact ⟨rfl, rfl⟩

theorem onPacketSent_counts (packet : QUICSentPacket) :
    (r.onPacketSent packet).bytesInFlight = r.bytesInFlight + packet.flightSize ∧
      (r.onPacketSent packet).congestionWindow = r.congestionWindow := by
  unfold onPacketSent QUICSentPacket.flightSize
  split_ifs
  · exact ⟨rfl, rfl⟩
  · exact ⟨(add_zero _).symm, rfl⟩

end QUICRecovery
end AvianCore.Quic
