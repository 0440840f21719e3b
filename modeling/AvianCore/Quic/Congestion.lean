import AvianCore.Quic.AckOnly

/-!
The congestion window over whole runs: its counters agree with the packets that are outstanding, and
what goes out while it is full.
-/

namespace AvianCore.Quic
open QUICLossDetection List QUICPacket

namespace World
variable (P : Primitives)

/-- In every state that a run reaches the counters agree with the outstanding packets, none of them is
negative, and the window is at least two datagrams. While fewer than `2 ^ 64` calls were made, so that
the 64-bit packet numbers have not come round, outstanding packets have increasing numbers, all of them
used. -/
theorem in_flight_accounted (start : World) (fresh : Fresh P start) (ops : List Op) : let c := (start.run P ops).conn
    c.recovery.bytesInFlight = inFlightBytes c.spaces.initial.unsettled
        + inFlightBytes c.spaces.handshake.unsettled + inFlightBytes c.spaces.application.unsettled ∧
      0 ≤ c.recovery.bytesInFlight ∧
      2 * (c.recovery.maxDatagramSize : Int) ≤ c.recovery.congestionWindow ∧
      ∀ level, (c.spaces.get level).ackElicitingInFlight = countEliciting (c.spaces.get level).unsettled ∧
        0 ≤ (c.spaces.get level).ackElicitingInFlight ∧
        (ops.length < 2 ^ 64 → ((c.spaces.get level).unsettled.Pairwise fun a b => a.packetNumber < b.packetNumber) ∧
          ∀ packet ∈ (c.spaces.get level).unsettled, packet.packetNumber < (c.spaces.get level).nextPacketNumber) := by
  intro c
  have sound : c.transit.Accounted := run_accounted P start ops (fresh.blank P).accounted
  have bytes : c.recovery.bytesInFlight = Transit.flight c.spaces := sound.flight
  refine ⟨bytes, ?_, sound.window, fun level => ⟨(sound.counted level).eliciting, ?_, fun few => ?_⟩⟩
  · rw [bytes]
    exact add_nonneg (add_nonneg (inFlightBytes_nonneg _) (inFlightBytes_nonneg _)) (inFlightBytes_nonneg _)
  · rw [show (c.spaces.get level).ackElicitingInFlight = _ from (sound.counted level).eliciting]
    exact Int.natCast_nonneg _
  · have counts := (fresh.counts P).run P ops (by omega)
    exact ⟨(counts.numbered level).increasing, (counts.numbered level).below⟩

/-- The server's first flight: two packets of 390 bytes in all are in flight, each in its space. -/
theorem in_flight_accounted_hello :
    let c := (start.run .transparent [Client.hello, .nextDatagram 1200 1]).conn
    c.recovery.bytesInFlight = 390 ∧ c.spaces.initial.unsettled.length = 1 ∧
      c.recovery.bytesInFlight = inFlightBytes c.spaces.initial.unsettled
        + inFlightBytes c.spaces.handshake.unsettled + inFlightBytes c.spaces.application.unsettled ∧
      (∀ packet ∈ (c.spaces.get .initial).unsettled, packet.packetNumber < (c.spaces.get .initial).nextPacketNumber) ∧
      c.spaces.handshake.ackElicitingInFlight = 1 := by
  have accounted := in_flight_accounted .transparent start start_fresh [Client.hello, .nextDatagram 1200 1]
  obtain ⟨bytes, -, -, each⟩ := accounted
  exact ⟨by decide +kernel, by decide +kernel, bytes, ((each .initial).2.2 (by decide)).2, by decide +kernel⟩

end World

namespace QUICConnection

theorem ackPackets_last {c : QUICConnection} {nowMs limit : Nat} {levels : List QUICLevel} {start : Nat}
    {last : PlannedPacket} (found : (c.ackPackets nowMs limit levels start).getLast? = some last) :
    last.end = c.acksEnd nowMs limit levels start ∧ 5 ≤ last.payloadLength := by
  have ends := ackPackets_end c nowMs limit levels start
  rw [found] at ends
  obtain ⟨from_, fits, same⟩ := mem_ackPackets (mem_of_getLast? found)
  refine ⟨ends, ?_⟩
  simp only [ackFits, Bool.and_eq_true, Bool.not_eq_true'] at fits
  rw [same]
  exact length_ackFrame fits.1.1.2 _

theorem padLast_acks {planned : List PlannedPacket} {last : PlannedPacket} {budget : Nat}
    (found : planned.getLast? = some last) (long : 5 ≤ last.payloadLength)
    (small : budget ≤ minimumInitialSize) :
    padLast planned budget = if (planned.any fun packet => packet.level == .initial) = true ∧ last.end < budget then
        planned.dropLast ++ [{ last with
          payloadLength := last.payloadLength + (budget - last.end)
          «end» := budget
          padded := true
          bytes := last.bytes ++ List.replicate (budget - last.end) 0 }]
      else planned := by
  unfold padLast
  split
  next absent =>
    cases found.symm.trans absent
  next final known =>
  obtain rfl : last = final := Option.some.inj (found.symm.trans known)
  extract_lets carriesInitial target minimumPayload padding padding'
  have none : padding = 0 := by
    show 4 - last.pnLength - last.payloadLength = 0
    omega
  by_cases pads : carriesInitial = true ∧ last.end < budget
  · have goal : target = budget := by
      simp only [target, pads.1, if_true]
      exact min_eq_right small
    have amount : padding' = budget - last.end := by simp only [padding', none, goal, Nat.add_zero, pads.2, if_true]
    have whole : last.end + padding' = budget := by omega
    rw [if_pos pads, if_pos (by omega), whole, amount]
  have amount : padding' = 0 := by
    simp only [padding', none, Nat.add_zero]
    rw [if_neg]
    intro below
    apply pads
    by_cases carries : carriesInitial = true
    · simp only [target, carries, if_true] at below
      exact ⟨carries, below.trans_le (min_le_right _ _)⟩
    · simp only [target, carries, Bool.false_eq_true, if_false, Nat.not_lt_zero] at below
  rw [if_neg pads, if_neg (by omega)]

section
variable (P : Primitives)

variable (c : QUICConnection)

theorem recordSent_bytes (packet : PlannedPacket) (size nowMs : Nat) :
    (c.recordSent packet size nowMs).recovery.bytesInFlight =
      c.recovery.bytesInFlight + if packet.ackEliciting || packet.padded then (size : Int) else 0 := by
  show (c.recovery.onPacketSent _).bytesInFlight = _
  rw [(QUICRecovery.onPacketSent_counts _ _).1]
  rfl

theorem sealAll_bytes (nowMs : Nat) (planned : List PlannedPacket) (c : QUICConnection) (out : Datagram)
    (grounded : ∀ packet ∈ planned, (packet.ackEliciting || packet.padded) = false) :
    (sealAll P nowMs planned c out).1.recovery.bytesInFlight = c.recovery.bytesInFlight := by
  induction planned generalizing c out with
  | nil => rfl
  | cons packet rest ih =>
    unfold sealAll
    split
    · rfl
    next sealed _ =>
      rw [ih _ _ fun other member => grounded other (mem_cons_of_mem _ member), recordSent_bytes,
        grounded packet mem_cons_self]
      simp

theorem sealAll_bytes_padded (nowMs : Nat) (planned : List PlannedPacket) (last : PlannedPacket)
    (c : QUICConnection) (out : Datagram)
    (grounded : ∀ packet ∈ planned, (packet.ackEliciting || packet.padded) = false)
    (padded : last.padded = true) (sealable : c.sealable P (planned ++ [last]) = true) :
    c.recovery.bytesInFlight < (sealAll P nowMs (planned ++ [last]) c out).1.recovery.bytesInFlight := by
  induction planned generalizing c out with
  | nil =>
    obtain ⟨sealed, done⟩ := Option.isSome_iff_exists.mp (by simpa [QUICConnection.sealable] using sealable :
      (c.sealPacket P last).isSome = true)
    have long := length_sealPacket_ge done
    simp only [nil_append, sealAll, done]
    rw [recordSent_bytes, padded, Bool.or_true, if_pos rfl]
    omega
  | cons packet rest ih =>
    have both : (c.sealPacket P packet).isSome = true ∧ c.sealable P (rest ++ [last]) = true := by
      simpa [QUICConnection.sealable] using sealable
    obtain ⟨sealed, done⟩ := Option.isSome_iff_exists.mp both.1
    have same : (c.recordSent packet sealed.length nowMs).recovery.bytesInFlight = c.recovery.bytesInFlight := by
      rw [recordSent_bytes, grounded packet mem_cons_self]
      simp
    rw [cons_append]
    unfold sealAll
    rw [done, ← same]
    apply ih
    · exact fun other member => grounded other (mem_cons_of_mem _ member)
    · exact both.2

/-- The datagram of acknowledgements that is due has an Initial packet and does not fill its budget, so
that it is padded. -/
def PadsAcks (c : QUICConnection) (capacity nowMs : Nat) : Prop :=
  c.status ≠ .drained ∧ c.status ≠ .closing ∧ 64 ≤ c.sendBudget capacity ∧
    c.ackFits .initial nowMs (c.sendBudget capacity) 0 = true ∧
    c.acksEnd nowMs (c.sendBudget capacity) [.initial, .handshake, .application] 0 < c.sendBudget capacity

instance (c : QUICConnection) (capacity nowMs : Nat) : Decidable (c.PadsAcks capacity nowMs) :=
  inferInstanceAs (Decidable (_ ∧ _))

theorem sendBudget_le_initial (capacity : Nat) : c.sendBudget capacity ≤ minimumInitialSize := by
  unfold sendBudget
  extract_lets budget
  have small : budget ≤ minimumInitialSize := min_le_right _ _
  split_ifs
  · exact small
  · exact (min_le_left _ _).trans small

theorem any_initial_ackPackets (nowMs limit : Nat) :
    ((c.ackPackets nowMs limit [.initial, .handshake, .application] 0).any
      fun packet => packet.level == .initial) = c.ackFits .initial nowMs limit 0 := by
  have none : ∀ levels start, .initial ∉ levels → ((c.ackPackets nowMs limit levels start).any
      fun packet => packet.level == .initial) = false := by
    intro levels start absent
    induction levels generalizing start with
    | nil => rfl
    | cons level rest ih =>
      rw [mem_cons, not_or] at absent
      unfold ackPackets
      split_ifs
      · rw [any_cons, ih _ absent.2, Bool.or_false]
        simp [ackPacket, Ne.symm absent.1]
      · exact ih _ absent.2
  unfold ackPackets
  split_ifs with fits
  · rw [fits, any_cons]
    rfl
  · have not : c.ackFits .initial nowMs limit 0 = false := by simpa using fits
    rw [none _ _ (by decide), not]

theorem buildDatagram_bytes {P : Primitives} (seals : P.Seals) (c : QUICConnection) {budget : Nat}
    (small : budget ≤ minimumInitialSize) (nowMs : Nat)
    (full : c.recovery.congestionWindow ≤ c.recovery.bytesInFlight)
    (spent : c.recovery.probeAllowance = 0) :
    (c.buildDatagram P budget nowMs).1.recovery.bytesInFlight = c.recovery.bytesInFlight ↔
      ¬(c.ackFits .initial nowMs budget 0 = true ∧
        c.acksEnd nowMs budget [.initial, .handshake, .application] 0 < budget) := by
  have ackOnly : (!c.recovery.canSend && c.recovery.probeAllowance == 0) = true := by
    simp only [QUICRecovery.canSend, spent, Bool.and_eq_true, Bool.not_eq_true', decide_eq_false_iff_not,
      beq_self_eq_true, and_true]
    omega
  have laid := (layout_spec c budget nowMs).1
  have layout := layout_plain (ackOnly ▸ plain_ackOnly c) budget nowMs
  have grounded : ∀ packet ∈ c.ackPackets nowMs budget [.initial, .handshake, .application] 0,
      (packet.ackEliciting || packet.padded) = false := by
    intro packet member
    obtain ⟨from_, -, same⟩ := mem_ackPackets member
    rw [same]
    rfl
  have after : (c.buildDatagram P budget nowMs).1.recovery.bytesInFlight =
      (sealAll P nowMs (c.layout budget nowMs).2 (c.layout budget nowMs).1 {}).1.recovery.bytesInFlight := by
    rw [buildDatagram_eq]
    split
    next failed => rw [failed]
    next done =>
      rw [done]
      unfold afterDatagram
      split_ifs <;> rfl
  have initially := any_initial_ackPackets c nowMs budget
  rw [after, layout.1, ← layout.2, ← initially]
  cases found : (c.ackPackets nowMs budget [.initial, .handshake, .application] 0).getLast? with
  | none =>
    rw [List.getLast?_eq_none_iff.mp found]
    simp [padLast, sealAll]
  | some last =>
    obtain ⟨ends, long⟩ := ackPackets_last found
    rw [padLast_acks found long small, ← ends]
    split_ifs with pads
    · refine ⟨fun same => ?_, fun not => absurd pads not⟩
      have rises := sealAll_bytes_padded P nowMs _ { last with
          payloadLength := last.payloadLength + (budget - last.end)
          «end» := budget
          padded := true
          bytes := last.bytes ++ List.replicate (budget - last.end) 0 } (c.layout budget nowMs).1 {}
        (fun packet member => grounded packet (dropLast_subset _ member)) rfl ?_
      · omega
      · rw [sealable_keys P laid.keys]
        apply sealable_of_formed seals
        intro packet member
        rcases mem_append.mp member with earlier | final
        · exact ackPackets_ready (dropLast_subset _ earlier)
        obtain ⟨formed, valid⟩ := ackPackets_ready (mem_of_getLast? found)
        rw [mem_singleton.mp final]
        exact ⟨formed.pad _ _, valid⟩
    · rw [sealAll_bytes P nowMs _ _ _ grounded]
      exact ⟨fun _ => pads, fun _ => rfl⟩

/-- With a full window and no probe left, a call leaves the flight as it is exactly if it does not pad a
datagram of acknowledgements. -/
theorem full_window_silent_iff (seals : P.Seals) (c : QUICConnection) (capacity nowMs : Nat)
    (full : c.recovery.congestionWindow ≤ c.recovery.bytesInFlight)
    (spent : c.recovery.probeAllowance = 0) :
    (c.nextDatagram P capacity nowMs).1.recovery.bytesInFlight = c.recovery.bytesInFlight ↔
      ¬c.PadsAcks capacity nowMs := by
  unfold nextDatagram PadsAcks
  extract_lets budget
  by_cases drained : c.status = .drained
  · simp [drained]
  by_cases narrow : budget < 64
  · have not : ¬64 ≤ c.sendBudget capacity := not_le.mpr narrow
    simp [drained, narrow, not]
  by_cases closing : c.status = .closing
  · have same : (c.buildClose P budget nowMs).1.recovery = c.recovery := by
      unfold buildClose
      extract_lets level
      split
      · rfl
      split
      · rfl
      split <;> rfl
    simp [narrow, closing, same]
  · have enough : 64 ≤ c.sendBudget capacity := not_lt.mp narrow
    rw [if_neg drained, if_neg narrow, if_neg closing, buildDatagram_bytes seals c
      (sendBudget_le_initial c capacity) nowMs full spent]
    simp only [ne_eq, drained, closing, not_false_eq_true, enough, true_and]

end
end QUICConnection

namespace World

/-- The server's first flight again and again, with no answer from the client, until the window is full
and both probes are spent. -/
def unanswered : List Op :=
  [Client.hello] ++ List.replicate 6 (.receive (zeros 1200) 1) ++ [.nextDatagram 1200 1]
    ++ (List.replicate 9 [Op.onTimeout 2, .nextDatagram 1200 2]).flatten
    ++ [.onTimeout 2, .nextDatagram 200 2, .nextDatagram 200 2, .nextDatagram 200 2]

/-- With no acknowledgement due, the full window holds. -/
theorem full_window_silent_iff_unanswered :
    let c := (start.run .transparent unanswered).conn
    c.recovery.congestionWindow ≤ c.recovery.bytesInFlight ∧ c.recovery.probeAllowance = 0 ∧
      (c.nextDatagram .transparent 1200 3).1.recovery.bytesInFlight = c.recovery.bytesInFlight := by
  have full : (start.run .transparent unanswered).conn.recovery.congestionWindow ≤
      (start.run .transparent unanswered).conn.recovery.bytesInFlight := by decide +kernel
  have spent : (start.run .transparent unanswered).conn.recovery.probeAllowance = 0 := by decide +kernel
  have none : ¬(start.run .transparent unanswered).conn.PadsAcks 1200 3 := by decide +kernel
  exact ⟨full, spent, (QUICConnection.full_window_silent_iff .transparent
    Primitives.transparent_seals _ 1200 3 full spent).mpr none⟩

/-- A client's Initial packet with a PING arrives then: its ACK goes out in a datagram padded to 1200
bytes, all of which are in flight. -/
theorem full_window_padded :
    let c := (start.run .transparent
      (unanswered ++ [.receive (Client.initialPacket 1 [1, 0, 0]) 3])).conn
    c.recovery.congestionWindow = 12000 ∧ c.recovery.bytesInFlight = 12279 ∧ c.recovery.probeAllowance = 0 ∧
      (c.nextDatagram .transparent 1200 3).1.recovery.bytesInFlight = 13479 := by
  decide +kernel

end World

end AvianCore.Quic
