import AvianCore.Quic.Emission

/-!
The packet numbers of emitted packets: over a run they increase at each level, and the length each is
written with decides whether the peer recovers it.
-/

namespace AvianCore.Quic
open AvianCore.Lib List Nat

theorem bigEndian_quicWriteUInt64BE (value : Nat) : bigEndian 0 (quicWriteUInt64BE value) = value % 2 ^ 64 := by
  simp only [bigEndian, quicWriteUInt64BE, byteAt, foldl_cons, foldl_nil, UInt8.toNat_ofNat', shiftRight_eq_div_pow]
  omega

theorem QUICKeys.nonce_injective (keys : QUICKeys) {first second : Nat} (small : first < 2 ^ 64)
    (small' : second < 2 ^ 64) (same : keys.nonce first = keys.nonce second) : first = second := by
  unfold nonce at same
  have tails := congrArg (bigEndian 0) (append_cancel_left same)
  rw [bigEndian_quicWriteUInt64BE, bigEndian_quicWriteUInt64BE, xor_mod_two_pow,
    xor_mod_two_pow, mod_eq_of_lt small, mod_eq_of_lt small'] at tails
  exact xor_right_injective tails

def numbersAt (level : QUICLevel) (packets : List PlannedPacket) : List Nat :=
  (packets.filter fun packet => packet.level == level).map PlannedPacket.packetNumber

theorem numbersAt_append (level : QUICLevel) (first second : List PlannedPacket) :
    numbersAt level (first ++ second) = numbersAt level first ++ numbersAt level second := by
  simp [numbersAt]

theorem numbersAt_absent {level : QUICLevel} {packets : List PlannedPacket}
    (absent : level ∉ packets.map PlannedPacket.level) : numbersAt level packets = [] := by
  unfold numbersAt
  rw [map_eq_nil_iff, filter_eq_nil_iff]
  intro packet member same
  exact absent (mem_map.mpr ⟨packet, member, by simpa using same⟩)

theorem numbersAt_distinct {packets : List PlannedPacket} (next : QUICLevel → Nat)
    (distinct : (packets.map PlannedPacket.level).Nodup)
    (numbered : ∀ packet ∈ packets, packet.packetNumber = next packet.level) {level : QUICLevel}
    (member : level ∈ packets.map PlannedPacket.level) : numbersAt level packets = [next level] := by
  induction packets with
  | nil => cases member
  | cons packet rest ih =>
    rw [map_cons, nodup_cons] at distinct
    have number := numbered packet mem_cons_self
    by_cases here : packet.level = level
    · have none := numbersAt_absent (here ▸ distinct.1)
      unfold numbersAt at none ⊢
      rw [filter_cons_of_pos (by simpa using here), map_cons, none, number, here]
    have behind : level ∈ rest.map PlannedPacket.level := by
      rw [map_cons, mem_cons] at member
      exact member.resolve_left fun same => here same.symm
    have only := ih distinct.2 (fun other among => numbered other (mem_cons_of_mem _ among)) behind
    unfold numbersAt at only ⊢
    rw [filter_cons_of_neg (by simpa using here), only]

namespace World
open QUICConnection
variable (P : Primitives)

def emits (w : World) : Op → List PlannedPacket
  | .nextDatagram capacity nowMs => w.conn.emitted P capacity nowMs
  | _ => []

def emissions (w : World) : List Op → List PlannedPacket
  | [] => []
  | op :: rest => w.emits P op ++ emissions (w.step P op) rest

theorem emits_numbers {w : World} {calls : Nat} (counts : Counts w calls) (few : calls + 1 < 2 ^ 64)
    (op : Op) (level : QUICLevel) :
    (w.conn.spaces.get level).nextPacketNumber ≤ ((w.step P op).conn.spaces.get level).nextPacketNumber ∧
      (numbersAt level (w.emits P op) = [] ∨
        numbersAt level (w.emits P op) = [(w.conn.spaces.get level).nextPacketNumber] ∧
        ((w.step P op).conn.spaces.get level).nextPacketNumber =
          (w.conn.spaces.get level).nextPacketNumber + 1) := by
  have bounded := counts.bounded level
  have small : (w.conn.spaces.get level).nextPacketNumber + 1 < 2 ^ 64 := by omega
  refine ⟨?_, ?_⟩
  · obtain ⟨levels, m, n, first, departs, last⟩ := step_call P w op
    have next := Transit.departed_next counts.sound first departs last small
    show (w.conn.spaces.get level).nextPacketNumber ≤ ((w.step P op).conn.transit.spaces.get level).nextPacketNumber
    rw [next]
    exact le_add_right _ _
  · cases op with
    | nextDatagram capacity nowMs =>
      obtain ⟨⟨levels, m, n, first, departs, last, among⟩, distinct, numbered, -⟩ :=
        nextDatagram_emits P w.conn capacity nowMs
      have next := Transit.departed_next counts.sound first departs last small
      by_cases member : level ∈ (w.conn.emitted P capacity nowMs).map PlannedPacket.level
      · rw [if_pos (among member)] at next
        have own := numbersAt_distinct (fun level => (w.conn.spaces.get level).nextPacketNumber)
          distinct (fun packet inside => (numbered packet inside).number) member
        exact .inr ⟨own, next⟩
      · exact .inl (numbersAt_absent member)
    | _ => exact .inl rfl

/-- The numbers that a level uses from some state on: none before its next number, in order, and no more
of them than calls. -/
theorem emissions_numbers {w : World} {calls : Nat} (counts : Counts w calls) (ops : List Op)
    (few : calls + ops.length < 2 ^ 64) (level : QUICLevel) :
    (numbersAt level (w.emissions P ops)).Pairwise (· < ·) ∧ ∀ number ∈ numbersAt level (w.emissions P ops),
        (w.conn.spaces.get level).nextPacketNumber ≤ number ∧ number < calls + ops.length := by
  induction ops generalizing w calls with
  | nil => exact ⟨List.Pairwise.nil, fun number member => by cases member⟩
  | cons op rest ih =>
    rw [length_cons] at few ⊢
    obtain ⟨grows, emitted⟩ := emits_numbers P counts (by omega) op level
    obtain ⟨ordered, bounds⟩ := ih (counts.step P op (by omega)) (by omega)
    have bounded := counts.bounded level
    unfold emissions
    rw [numbersAt_append]
    rcases emitted with nothing | ⟨one, used⟩
    · rw [nothing, nil_append]
      refine ⟨ordered, fun number member => ?_⟩
      have bound := bounds number member
      omega
    rw [one]
    refine ⟨pairwise_cons.mpr ⟨fun number member => ?_, ordered⟩, fun number member => ?_⟩
    · have bound := bounds number member
      omega
    · rcases mem_cons.mp member with rfl | behind
      · omega
      · have bound := bounds number behind
        omega

/-- Over every run of fewer than `2 ^ 64` calls, the packets emitted at a level have strictly increasing
numbers, so that no nonce is used twice under any keys; and the bytes of a datagram are the emitted
packets, each sealed with its number. -/
theorem numbers_increase (start : World) (fresh : Fresh P start) (ops : List Op)
    (few : ops.length < 2 ^ 64) (level : QUICLevel) :
    (numbersAt level (start.emissions P ops)).Pairwise (· < ·) ∧
      (∀ keys : QUICKeys, ((numbersAt level (start.emissions P ops)).map keys.nonce).Nodup) ∧
      ∀ (c : QUICConnection) (capacity nowMs : Nat), (c.nextDatagram P capacity nowMs).2.bytes =
        c.sealedBytes P (c.emitted P capacity nowMs) := by
  obtain ⟨ordered, bounds⟩ := emissions_numbers P (fresh.counts P) ops (by omega) level
  refine ⟨ordered, fun keys => ?_, fun c capacity nowMs => (nextDatagram_emits P c capacity nowMs).bytes⟩
  apply List.Nodup.map_on
  · intro first member second member' same
    have bound := bounds first member
    have bound' := bounds second member'
    exact keys.nonce_injective (by omega) (by omega) same
  · exact ordered.imp fun less => Nat.ne_of_lt less

/-- Ordinary packets, coalesced ones and two CONNECTION_CLOSE packets. -/
theorem numbers_increase_closing :
    let ops : List Op := [Client.hello, .nextDatagram 1200 1, Client.finished, .nextDatagram 1200 3,
      .close 7 false [], .nextDatagram 1200 4, .nextDatagram 1200 100000]
    numbersAt .application (start.emissions .transparent ops) = [0, 1, 2] ∧
      numbersAt .initial (start.emissions .transparent ops) = [0] ∧
      (numbersAt .application (start.emissions .transparent ops)).Pairwise (· < ·) :=
  ⟨by decide +kernel, by decide +kernel, (numbers_increase .transparent start start_fresh _ (by decide) .application).1⟩

end World

theorem bigEndian_packetNumberBytes (packetNumber : Nat) {pnLength : Nat} (some : 1 ≤ pnLength)
    (most : pnLength ≤ 4) : bigEndian 0 (QUICProtect.packetNumberBytes packetNumber pnLength) =
      packetNumber % 2 ^ (pnLength * 8) := by
  unfold QUICProtect.packetNumberBytes bigEndian byteAt
  interval_cases pnLength <;> simp [range_succ, shiftRight_eq_div_pow] <;> omega

variable {packetNumber : Nat} {r : Int}

theorem quicDecodePacketNumber_near {bits : Nat} (wide : 1 ≤ bits)
    (behind : r + 1 < packetNumber + (2 ^ (bits - 1) : Nat))
    (near : (packetNumber : Int) ≤ r + 1 + (2 ^ (bits - 1) : Nat)) (small : packetNumber < 2 ^ 62) :
    quicDecodePacketNumber r (packetNumber % 2 ^ bits) bits = packetNumber := by
  obtain ⟨half, rfl⟩ := Nat.exists_eq_add_of_le' wide
  rw [Nat.add_sub_cancel] at behind near
  have window : 2 ^ (half + 1) = 2 * 2 ^ half := by rw [pow_succ, mul_comm]
  have positive : 0 < 2 ^ half := Nat.two_pow_pos half
  unfold quicDecodePacketNumber
  rw [window]
  generalize 2 ^ half = h at behind near positive
  have halves : 2 * h / 2 = h := by omega
  simp only [halves]
  generalize place : (r + 1).toNat = e
  have low : e < packetNumber + h := by omega
  have high : packetNumber ≤ e + h := by omega
  have whole := div_add_mod packetNumber (2 * h)
  have part := div_add_mod e (2 * h)
  have rest := mod_lt e (show 0 < 2 * h by omega)
  have least : e / (2 * h) ≤ packetNumber / (2 * h) + 1 := by
    rw [← add_div_right packetNumber (show 0 < 2 * h by omega)]
    exact Nat.div_le_div_right (by omega)
  have most : packetNumber / (2 * h) ≤ e / (2 * h) + 1 := by
    rw [← add_div_right e (show 0 < 2 * h by omega)]
    exact Nat.div_le_div_right (by omega)
  rw [mul_comm (e / (2 * h))]
  -- the expected number lies in the window of the number, or in one next to it
  rcases lt_trichotomy (e / (2 * h)) (packetNumber / (2 * h)) with before | same | behind
  · have next : packetNumber / (2 * h) = e / (2 * h) + 1 := by omega
    rw [next, mul_succ] at whole
    rw [if_pos (by omega)]
    omega
  · rw [← same] at whole
    rw [if_neg (by omega), if_neg (by omega)]
    omega
  have next : e / (2 * h) = packetNumber / (2 * h) + 1 := by omega
  have inside := mod_lt packetNumber (show 0 < 2 * h by omega)
  rw [next, mul_succ] at part ⊢
  rw [if_neg (by omega), if_pos (by omega)]
  omega

/-- One byte carries a number exactly when it is at most 128 above the expected one, or has no more than
one byte. -/
theorem quicDecodePacketNumber_byte (least : -1 ≤ r) (above : r < packetNumber) (small : packetNumber < 2 ^ 62) :
    quicDecodePacketNumber r (packetNumber % 2 ^ 8) 8 = packetNumber ↔
      packetNumber < 256 ∨ (packetNumber : Int) ≤ r + 129 := by
  unfold quicDecodePacketNumber
  simp only
  generalize place : (r + 1).toNat = e
  have low : (e : Int) = r + 1 := by omega
  constructor
  · intro recovered
    split_ifs at recovered <;> omega
  · intro near
    split_ifs <;> omega

/-- The largest number that is acknowledged, or -1. -/
def largestOrNone (acked : Option Nat) : Int := acked.elim (-1) Nat.cast

theorem quicPacketNumberLength_wide {recorded : Option Nat}
    (least : largestOrNone recorded ≤ r) (above : r < packetNumber)
    (unacked : (packetNumber : Int) - r ≤ 2 ^ 31) (small : packetNumber < 2 ^ 62) :
    let pnLength := quicPacketNumberLength packetNumber recorded
    1 ≤ pnLength ∧ pnLength ≤ 4 ∧ (packetNumber : Int) ≤ r + 1 + (2 ^ (pnLength * 8 - 1) : Nat) := by
  intro pnLength
  have shorter : ∀ range : Nat, 2 * ((packetNumber : Int) - r) ≤ range →
      pnLength = (if range < 2 ^ 8 then 1 else if range < 2 ^ 16 then 2 else if range < 2 ^ 24 then 3 else 4) →
      1 ≤ pnLength ∧ pnLength ≤ 4 ∧ (packetNumber : Int) ≤ r + 1 + (2 ^ (pnLength * 8 - 1) : Nat) := by
    intro range enough chosen
    rw [chosen]
    split_ifs <;> norm_num <;> omega
  cases recorded with
  | none =>
    apply shorter (addWrapping packetNumber 1 * 2 % 2 ^ 64) _ rfl
    have known : (-1 : Int) ≤ r := least
    have word : addWrapping packetNumber 1 * 2 % 2 ^ 64 = (packetNumber + 1) * 2 := by
      unfold addWrapping
      omega
    rw [word]
    omega
  | some acked =>
    apply shorter (subWrapping packetNumber acked * 2 % 2 ^ 64) _ rfl
    have known : (acked : Int) ≤ r := least
    have word : subWrapping packetNumber acked * 2 % 2 ^ 64 = (packetNumber - acked) * 2 := by
      unfold subWrapping
      omega
    rw [word]
    omega

/-- A peer that has received packets up to number `r` reads the packet's number right. -/
def PlannedPacket.RecoveredBy (packet : PlannedPacket) (r : Int) : Prop :=
  quicDecodePacketNumber r
    (bigEndian 0 (QUICProtect.packetNumberBytes packet.packetNumber packet.pnLength))
    (packet.pnLength * 8) = packet.packetNumber

instance (packet : PlannedPacket) (r : Int) : Decidable (packet.RecoveredBy r) :=
  inferInstanceAs (Decidable (_ = _))

namespace QUICConnection
variable (P : Primitives) {c : QUICConnection} {capacity nowMs : Nat} {packet : PlannedPacket}

/-- A packet of a closing connection has one byte of packet number, any other as many as
`packetNumberLength` says. -/
theorem emitted_length (member : packet ∈ c.emitted P capacity nowMs) : packet.pnLength = if c.status = .closing then 1
    else quicPacketNumberLength packet.packetNumber (c.spaces.get packet.level).largestAckedPacket := by
  have number := ((nextDatagram_emits P c capacity nowMs).numbered packet member).number
  unfold emitted at member
  extract_lets budget at member
  split at member
  · cases member
  split at member
  next closing =>
    rw [if_pos closing]
    unfold closePackets at member
    split at member
    · cases member
    split at member
    · cases member
    next built =>
      split_ifs at member
      · rw [mem_singleton.mp member]
        exact (buildCloseFrame_named built).2.2
      · cases member
  next open_ =>
    rw [if_neg open_]
    split_ifs at member
    · rw [((layout_spec c budget nowMs).2.2 packet member).2, number]
      rfl
    · cases member

end QUICConnection

namespace World
variable (P : Primitives)

/-- In every run of fewer than `2 ^ 62` calls, every emitted packet, with no more than `2 ^ 31` numbers
from the largest acknowledged one to its own: whatever the peer has received beyond what it has
acknowledged, it recovers the packet's number, unless the packet is a CONNECTION_CLOSE whose number is
too far above the acknowledged one for the single byte it has. -/
theorem number_recovered_iff (start : World) (fresh : Fresh P start) (ops : List Op)
    (few : ops.length < 2 ^ 62) (capacity nowMs : Nat) (packet : PlannedPacket)
    (emitted : packet ∈ (start.run P ops).conn.emitted P capacity nowMs) (acked : Option Nat)
    (known : largestOrNone ((start.run P ops).conn.spaces.get packet.level).largestAckedPacket ≤ largestOrNone acked)
    (unacked : (packet.packetNumber : Int) - largestOrNone acked ≤ 2 ^ 31) :
    (∀ r, largestOrNone acked ≤ r → r < packet.packetNumber → packet.RecoveredBy r) ↔
      ((start.run P ops).conn.status = .closing →
        packet.packetNumber < 256 ∨ (packet.packetNumber : Int) ≤ largestOrNone acked + 129) := by
  have counts := (fresh.counts P).run P ops (by omega)
  have length := QUICConnection.emitted_length P emitted
  have number := ((QUICConnection.nextDatagram_emits P _ capacity nowMs).numbered packet emitted).number
  have bounded := counts.bounded packet.level
  generalize (start.run P ops).conn = c at *
  have small : packet.packetNumber < 2 ^ 62 := by omega
  have least : -1 ≤ largestOrNone acked := by
    cases acked with
    | none => exact le_rfl
    | some acked => exact le_trans (by decide) (Int.natCast_nonneg acked)
  unfold PlannedPacket.RecoveredBy
  by_cases closing : c.status = .closing
  · rw [if_pos closing] at length
    rw [length, bigEndian_packetNumberBytes _ le_rfl (by decide)]
    constructor
    · intro recovers _
      by_cases above : largestOrNone acked < packet.packetNumber
      · exact (quicDecodePacketNumber_byte least above small).mp (recovers _ le_rfl above)
      · exact .inr (by omega)
    · intro near r lower above
      apply (quicDecodePacketNumber_byte (by omega) above small).mpr
      have close := near closing
      omega
  · rw [if_neg closing] at length
    refine ⟨fun _ started => absurd started closing, fun _ r lower above => ?_⟩
    obtain ⟨some, most, near⟩ := quicPacketNumberLength_wide (known.trans lower) above (by omega) small
    have positive := Nat.two_pow_pos (packet.pnLength * 8 - 1)
    rw [length] at positive
    rw [length, bigEndian_packetNumberBytes _ some most]
    exact quicDecodePacketNumber_near (by omega) (by omega) near small

/-- The server's first packets, of which nothing has been acknowledged. -/
theorem number_recovered_iff_hello :
    let w := start.run .transparent [Client.hello]
    let packets := w.conn.emitted .transparent 1200 1
    packets.map PlannedPacket.packetNumber = [0, 0] ∧ ∀ packet ∈ packets, packet.RecoveredBy (-1) := by
  intro w packets
  have numbers : packets.map PlannedPacket.packetNumber = [0, 0] := by decide +kernel
  refine ⟨numbers, fun packet member => ?_⟩
  have zero : packet.packetNumber = 0 := by
    have there := List.mem_map_of_mem (f := PlannedPacket.packetNumber) member
    rw [numbers] at there
    simpa using there
  have nothing : ∀ level, (w.conn.spaces.get level).largestAckedPacket = none := by
    intro level
    cases level <;> decide +kernel
  apply (number_recovered_iff .transparent start start_fresh [Client.hello] (by decide) 1200 1 packet
    member none (by rw [nothing packet.level]) (by rw [zero]; decide)).mpr
  · exact fun _ => .inl (by omega)
  · exact le_rfl
  · omega

/-- Nobody acknowledges 256 packets; the close that follows has number 256 in one byte, which a peer that
has none of them takes for number 0. -/
theorem close_number_lost :
    let probes := (List.replicate 255 [Op.onTimeout 5, .nextDatagram 1200 5]).flatten
    let w := start.run .transparent ([Client.hello, .nextDatagram 1200 1, Client.finished,
      .nextDatagram 1200 3] ++ probes ++ [.close 7 false []])
    w.conn.spaces.application.largestAckedPacket = none ∧
      ∃ packet ∈ w.conn.emitted .transparent 1200 6, packet.level = .application ∧
        packet.packetNumber = 256 ∧ ¬packet.RecoveredBy (-1) := by
  decide +kernel

end World

end AvianCore.Quic
