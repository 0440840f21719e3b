import AvianCore.Lib.Bisect
import AvianCore.Quic.AckRanges

/-!
Settlement. `onAck` packs the packets that stay downward in their array; here it is shown to do what
a plain specification says with filters over the outstanding packets.
-/

namespace AvianCore.Quic
open AvianCore.Lib List Bool

namespace QUICLossDetection

/-- The slots from `base` up to `base + count`. -/
def slots (sent : List QUICSentPacket) (base count : Nat) : List QUICSentPacket := (sent.take (base + count)).drop base

theorem slots_zero (sent : List QUICSentPacket) (base : Nat) : slots sent base 0 = [] := by
  unfold slots
  apply drop_eq_nil_of_le
  rw [length_take]
  omega

variable {packet : QUICSentPacket}

theorem slots_succ {sent : List QUICSentPacket} {base count : Nat} (found : sent[base + count]? = some packet) :
    slots sent base (count + 1) = slots sent base count ++ [packet] := by
  unfold slots
  have inside : base + count < sent.length := (List.getElem?_eq_some_iff.mp found).1
  rw [← Nat.add_assoc, take_add_one, found, Option.toList_some, drop_append_of_le_length]
  rw [length_take]
  omega

theorem slots_set (sent : List QUICSentPacket) {base count keep : Nat} (packet : QUICSentPacket)
    (beyond : base + count ≤ keep) : slots (sent.set keep packet) base count = slots sent base count := by
  unfold slots
  rw [take_set_of_le beyond]

/-- A pass takes out what `out` selects of the slots it looked at and packs the others, in order,
against what was packed before. -/
structure Packs (out : QUICSentPacket → Bool) (looked : List QUICSentPacket) (pass after : Packing) :
    Prop where
  taken : after.taken = looked.filter out ++ pass.taken
  packed : after.sent.drop after.keep = looked.filter (fun packet => !out packet) ++ pass.sent.drop pass.keep
  length : after.sent.length = pass.sent.length
  keep : after.keep ≤ pass.keep
  rest : after.sent.drop pass.keep = pass.sent.drop pass.keep

theorem stay_sent (pass : Packing) {i : Nat} (found : pass.sent[i]? = some packet) :
    (pass.stay i packet).sent = pass.sent.set (pass.keep - 1) packet := by
  unfold Packing.stay
  extract_lets keep
  split_ifs with same
  · obtain ⟨inside, value⟩ := List.getElem?_eq_some_iff.mp found
    subst i
    rw [← value]
    exact (set_getElem_self inside).symm
  · rfl

theorem stay_packs (pass : Packing) {i : Nat} (found : pass.sent[i]? = some packet) (below : i < pass.keep)
    (fits : pass.keep ≤ pass.sent.length) :
    (pass.stay i packet).sent.drop (pass.stay i packet).keep = packet :: pass.sent.drop pass.keep ∧
      (pass.stay i packet).sent.drop pass.keep = pass.sent.drop pass.keep := by
  have keep : (pass.stay i packet).keep = pass.keep - 1 := rfl
  have next : pass.keep - 1 + 1 = pass.keep := by omega
  rw [stay_sent pass found, keep]
  constructor
  · rw [drop_set, if_neg (lt_irrefl _), Nat.sub_self, drop_eq_getElem_cons (by omega), set_cons_zero, next]
  · rw [drop_set_of_lt (by omega)]

theorem packDown_packs (out : QUICSentPacket → Bool) (base count : Nat) (pass : Packing)
    (beyond : base + count ≤ pass.keep) (fits : pass.keep ≤ pass.sent.length) :
    Packs out (slots pass.sent base count) pass (packDown out base count pass) := by
  induction count generalizing pass with
  | zero =>
    rw [slots_zero]
    exact ⟨rfl, rfl, rfl, le_rfl, rfl⟩
  | succ count ih =>
    have inside : base + count < pass.sent.length := by omega
    have found : pass.sent[base + count]? = some (pass.sent.get ⟨base + count, inside⟩) :=
      List.getElem?_eq_getElem inside
    generalize pass.sent.get ⟨base + count, inside⟩ = packet at found
    rw [slots_succ found]
    unfold packDown
    rw [found]
    by_cases selected : out packet = true
    · have rest := ih (pass.take packet) (show base + count ≤ pass.keep by omega) fits
      simp only [selected, if_true]
      refine ⟨?_, ?_, rest.length, rest.keep, rest.rest⟩
      · rw [rest.taken]
        simp [Packing.take, filter_append, selected]
      · rw [rest.packed]
        simp [Packing.take, filter_append, selected]
    · obtain ⟨packed, behind⟩ := stay_packs pass found (by omega) fits
      have length : (pass.stay (base + count) packet).sent.length = pass.sent.length := by
        rw [stay_sent pass found, length_set]
      have keep : (pass.stay (base + count) packet).keep = pass.keep - 1 := rfl
      have same : slots (pass.stay (base + count) packet).sent base count = slots pass.sent base count := by
        rw [stay_sent pass found]
        exact slots_set pass.sent packet (by omega)
      have rest := ih (pass.stay (base + count) packet) (by omega) (by omega)
      rw [same] at rest
      simp only [selected, false_eq_true, if_false]
      refine ⟨?_, ?_, rest.length.trans length, by have most := rest.keep; omega, ?_⟩
      · rw [rest.taken]
        simp [Packing.stay, filter_append, selected]
      · rw [rest.packed, packed]
        simp [filter_append, selected]
      · have next : pass.keep = pass.keep - 1 + 1 := by omega
        have tails := congrArg (List.drop 1) rest.rest
        rw [keep, drop_drop, drop_drop, ← next] at tails
        rw [tails, behind]

theorem packDown_idle (out : QUICSentPacket → Bool) (base count : Nat) (sent : List QUICSentPacket)
    (taken : List QUICSentPacket) (fits : base + count ≤ sent.length)
    (none : (slots sent base count).filter out = []) :
    packDown out base count ⟨sent, base + count, taken⟩ = ⟨sent, base, taken⟩ := by
  induction count with
  | zero => rfl
  | succ count ih =>
    have inside : base + count < sent.length := by omega
    have found : sent[base + count]? = some (sent.get ⟨base + count, inside⟩) := List.getElem?_eq_getElem inside
    generalize sent.get ⟨base + count, inside⟩ = packet at found
    rw [slots_succ found, filter_append, append_eq_nil_iff] at none
    have stays : out packet = false := by
      by_contra selected
      simp [not_eq_false _ ▸ selected] at none
    have unmoved : Packing.stay ⟨sent, base + (count + 1), taken⟩ (base + count) packet =
        ⟨sent, base + count, taken⟩ := by
      simp [Packing.stay, ← Nat.add_assoc]
    unfold packDown
    simp only [found, stays, false_eq_true, if_false, unmoved]
    exact ih (by omega) none.1

end QUICLossDetection

namespace QUICPacketSpace

def Increasing (space : QUICPacketSpace) : Prop := space.unsettled.Pairwise fun a b => a.packetNumber < b.packetNumber

theorem searchEnd_eq_bisect (sent : List QUICSentPacket) (number fuel low high : Nat) :
    searchEnd sent number fuel low high = bisect (fun i =>
      decide (((sent[i]?).map QUICSentPacket.packetNumber).getD 0 ≤ number)) fuel low high := by
  induction fuel generalizing low high with
  | zero => rfl
  | succ fuel ih =>
    unfold searchEnd bisect
    simp only [ih, decide_eq_true_eq]

theorem searchEnd_le (sent : List QUICSentPacket) (number fuel : Nat) {low high : Nat}
    (ordered : low ≤ high) : searchEnd sent number fuel low high ≤ high := by
  induction fuel generalizing low high with
  | zero => exact ordered
  | succ fuel ih =>
    unfold searchEnd
    extract_lets mid
    split_ifs with more below
    · apply ih
      show (low + high) / 2 + 1 ≤ high
      omega
    · have upper : searchEnd sent number fuel low mid ≤ mid := by
        apply ih
        show low ≤ (low + high) / 2
        omega
      apply upper.trans
      show (low + high) / 2 ≤ high
      omega
    · exact ordered

theorem advanceHead_inside (space : QUICPacketSpace) {index : Nat} (ordered : space.sentHead ≤ index)
    (inside : index ≤ space.sent.length) :
    (space.advanceHead index).sentHead ≤ (space.advanceHead index).sent.length := by
  have length := length_releaseSlots space.sent ordered
  unfold advanceHead
  extract_lets sent
  split_ifs
  · exact Nat.zero_le _
  · exact Nat.zero_le _
  show index ≤ sent.length
  rw [show sent.length = space.sent.length from length]
  exact inside

theorem endOfPackets_eq {space : QUICPacketSpace} (increasing : space.Increasing)
    (inside : space.sentHead ≤ space.sent.length) (number : Nat) : space.endOfPackets number = space.sentHead +
      (space.unsettled.takeWhile fun packet => packet.packetNumber ≤ number).length := by
  unfold endOfPackets
  rw [searchEnd_eq_bisect]
  apply bisect_eq_takeWhile space.sent (fun packet => decide (packet.packetNumber ≤ number)) _ _ inside _
    (Nat.sub_le _ _)
  · intro i packet found
    simp [found]
  · apply increasing.imp
    intro a b order
    simp only [decide_eq_true_eq]
    omega

end QUICPacketSpace

namespace QUICLossDetection

def covered (ranges : List PacketRange) (packet : QUICSentPacket) : Bool :=
  ranges.any fun range => range.contains packet.packetNumber

/-- The outcome of an ACK frame, said plainly: the packets it covers, the ones that it shows to be
lost, and the ones that stay outstanding. -/
structure Outcome where
  acked : List QUICSentPacket
  lost : List QUICSentPacket
  staying : List QUICSentPacket

/-- The packets that are covered are acknowledged. Of the others, the ones below the threshold that
are far enough behind it, or old enough, are lost. The loss delay is read after the round-trip sample
that this ACK may give. -/
def outcome (space : QUICPacketSpace) (recovery : QUICRecovery) (ranges : List PacketRange)
    (largestAcked ackDelayMs nowMs : Nat) : Outcome :=
  let acked := space.unsettled.filter (covered ranges)
  let remaining := space.unsettled.filter fun packet => !covered ranges packet
  let threshold := max (space.largestAckedPacket.getD largestAcked) largestAcked
  let lossDelay := (sampleRTT recovery acked largestAcked ackDelayMs nowMs).lossDelayMs
  let isLost := fun (packet : QUICSentPacket) => decide (packet.packetNumber < threshold ∧
    (QUICRecovery.packetThreshold ≤ threshold - packet.packetNumber ∨ lossDelay ≤ nowMs - packet.sentAtMs))
  { acked := acked
    lost := remaining.filter isLost
    staying := remaining.filter fun packet => !isLost packet }

section
variable {space : QUICPacketSpace} {threshold : Nat}

/-- The outstanding packets that `onAck` looks at, and the ones beyond. -/
def looked (space : QUICPacketSpace) (threshold : Nat) : List QUICSentPacket :=
  space.unsettled.takeWhile fun packet => packet.packetNumber ≤ threshold

def beyond (space : QUICPacketSpace) (threshold : Nat) : List QUICSentPacket :=
  space.unsettled.dropWhile fun packet => packet.packetNumber ≤ threshold

theorem looked_append_beyond (space : QUICPacketSpace) (threshold : Nat) :
    looked space threshold ++ beyond space threshold = space.unsettled :=
  takeWhile_append_dropWhile

theorem lt_of_mem_beyond (increasing : space.Increasing) :
    ∀ packet ∈ beyond space threshold, threshold < packet.packetNumber := by
  intro packet member
  have sorted : space.unsettled.Pairwise fun a b =>
      decide (b.packetNumber ≤ threshold) = true → decide (a.packetNumber ≤ threshold) = true := by
    apply increasing.imp
    intro a b order
    simp only [decide_eq_true_eq]
    omega
  simpa using dropWhile_sorted sorted packet member

theorem slots_looked (increasing : space.Increasing) (inside : space.sentHead ≤ space.sent.length) :
    slots space.sent space.sentHead (space.endOfPackets threshold - space.sentHead) = looked space threshold := by
  rw [QUICPacketSpace.endOfPackets_eq increasing inside, Nat.add_sub_cancel_left]
  unfold slots looked
  rw [drop_take, Nat.add_sub_cancel_left]
  exact (prefix_iff_eq_take.mp (List.takeWhile_prefix _)).symm

/-- The slots that `onAck` looks at, and the ones beyond, wherever the search ended. -/
def seen (space : QUICPacketSpace) (threshold : Nat) : List QUICSentPacket :=
  slots space.sent space.sentHead (space.endOfPackets threshold - space.sentHead)

def unseen (space : QUICPacketSpace) (threshold : Nat) : List QUICSentPacket :=
  space.sent.drop (space.endOfPackets threshold)

theorem seen_append_unseen (space : QUICPacketSpace) (threshold : Nat) :
    seen space threshold ++ unseen space threshold = space.unsettled := by
  have reached : space.sentHead ≤ space.endOfPackets threshold := QUICPacketSpace.le_searchEnd _ _ _ _ _
  unfold seen unseen slots QUICPacketSpace.unsettled
  generalize space.endOfPackets threshold = stop at reached
  obtain ⟨count, rfl⟩ := Nat.exists_eq_add_of_le reached
  rw [Nat.add_sub_cancel_left, drop_take, Nat.add_sub_cancel_left, ← drop_drop]
  exact take_append_drop count _

theorem seen_eq_looked (increasing : space.Increasing) : seen space threshold = looked space threshold := by
  by_cases inside : space.sentHead ≤ space.sent.length
  · exact slots_looked increasing inside
  have none : space.unsettled = [] := drop_eq_nil_of_le (by omega)
  have parts := seen_append_unseen space threshold
  rw [none, append_eq_nil_iff] at parts
  rw [parts.1, looked, none, takeWhile_nil]

theorem unseen_eq_beyond (increasing : space.Increasing) : unseen space threshold = beyond space threshold := by
  have parts := seen_append_unseen space threshold
  rw [← looked_append_beyond space threshold, seen_eq_looked increasing] at parts
  exact append_cancel_left parts

theorem filter_beyond (increasing : space.Increasing) (p : QUICSentPacket → Bool)
    (low : ∀ packet, p packet = true → packet.packetNumber ≤ threshold) : (beyond space threshold).filter p = [] ∧
      (beyond space threshold).filter (fun packet => !p packet) = beyond space threshold := by
  have none : ∀ packet ∈ beyond space threshold, p packet = false := by
    intro packet member
    have high := lt_of_mem_beyond increasing packet member
    by_contra hit
    have less := low packet (by simpa using hit)
    omega
  constructor
  · apply filter_eq_nil_iff.mpr
    intro packet member
    simp [none packet member]
  · apply filter_eq_self.mpr
    intro packet member
    simp [none packet member]

theorem filter_unsettled (increasing : space.Increasing) (p : QUICSentPacket → Bool)
    (low : ∀ packet, p packet = true → packet.packetNumber ≤ threshold) :
    space.unsettled.filter p = (looked space threshold).filter p ∧ space.unsettled.filter (fun packet => !p packet) =
        (looked space threshold).filter (fun packet => !p packet) ++ beyond space threshold := by
  obtain ⟨none, all⟩ := filter_beyond increasing p low
  rw [← looked_append_beyond space threshold, filter_append, filter_append, none, all, append_nil]
  exact ⟨rfl, rfl⟩

end

section
variable {space : QUICPacketSpace} (recovery : QUICRecovery) {ranges : List PacketRange}
  {largestAcked : Nat} (ackDelayMs nowMs : Nat)

theorem isAcked_eq_covered (largest : ∀ range ∈ ranges, range.high ≤ largestAcked) :
    isAcked ranges largestAcked = covered ranges := by
  funext packet
  unfold isAcked covered
  cases hit : ranges.any fun range => range.contains packet.packetNumber with
  | false => simp
  | true =>
    obtain ⟨range, member, inside⟩ := any_eq_true.mp hit
    have below := ((PacketRange.contains_iff range packet.packetNumber).mp inside).2
    have small : packet.packetNumber ≤ largestAcked := below.trans (largest range member)
    simp [small]

/-- The packets that an ACK takes out, and the ones it looks at and leaves. -/
def ackedOf (space : QUICPacketSpace) (ranges : List PacketRange) (largestAcked : Nat) :
    List QUICSentPacket :=
  (seen space (max (space.largestAckedPacket.getD largestAcked) largestAcked)).filter
    (isAcked ranges largestAcked)

def survivorsOf (space : QUICPacketSpace) (ranges : List PacketRange) (largestAcked : Nat) :
    List QUICSentPacket :=
  (seen space (max (space.largestAckedPacket.getD largestAcked) largestAcked)).filter
    fun packet => !isAcked ranges largestAcked packet

/-- The estimates after the round-trip sample, from which the loss delay is read. -/
def sampled (space : QUICPacketSpace) (recovery : QUICRecovery) (ranges : List PacketRange)
    (largestAcked ackDelayMs nowMs : Nat) : QUICRecovery :=
  (sampleRTT recovery (ackedOf space ranges largestAcked) largestAcked ackDelayMs nowMs).onAckReceived

/-- What `onAck` does when it acknowledges a packet. -/
structure Acknowledges (space : QUICPacketSpace) (recovery : QUICRecovery) (ranges : List PacketRange)
    (largestAcked ackDelayMs nowMs : Nat) (result : Result) (after : QUICPacketSpace)
    (recovered : QUICRecovery) : Prop where
  acked : result.acked = ackedOf space ranges largestAcked
  lost : result.lost = (survivorsOf space ranges largestAcked).filter (isLost
    (max (space.largestAckedPacket.getD largestAcked) largestAcked)
    (sampled space recovery ranges largestAcked ackDelayMs nowMs).lossDelayMs nowMs)
  staying : after.unsettled = (survivorsOf space ranges largestAcked).filter (fun packet => !isLost
    (max (space.largestAckedPacket.getD largestAcked) largestAcked)
    (sampled space recovery ranges largestAcked ackDelayMs nowMs).lossDelayMs nowMs packet) ++
      unseen space (max (space.largestAckedPacket.getD largestAcked) largestAcked)
  counted : after.ackElicitingInFlight = space.ackElicitingInFlight - countEliciting result.acked -
    countEliciting result.lost
  next : after.nextPacketNumber = space.nextPacketNumber
  largest : after.largestAckedPacket = some (max (space.largestAckedPacket.getD largestAcked) largestAcked)
  inside : after.sentHead ≤ after.sent.length
  recovered : recovered = ((sampled space recovery ranges largestAcked ackDelayMs nowMs).onPacketsAcked
    result.acked).onPacketsLost result.lost nowMs

theorem advanceHead_fields (space : QUICPacketSpace) (index : Nat) :
    (space.advanceHead index).ackElicitingInFlight = space.ackElicitingInFlight ∧
      (space.advanceHead index).nextPacketNumber = space.nextPacketNumber ∧
      (space.advanceHead index).largestAckedPacket = space.largestAckedPacket := by
  unfold QUICPacketSpace.advanceHead
  extract_lets sent
  split_ifs <;> exact ⟨rfl, rfl, rfl⟩

theorem ackPass (out : QUICSentPacket → Bool) (space : QUICPacketSpace) (threshold : Nat)
    (fits : space.endOfPackets threshold ≤ space.sent.length) :
    Packs out (seen space threshold) ⟨space.sent, space.endOfPackets threshold, []⟩
      (packDown out space.sentHead (space.endOfPackets threshold - space.sentHead)
        ⟨space.sent, space.endOfPackets threshold, []⟩) := by
  have reached : space.sentHead ≤ space.endOfPackets threshold := QUICPacketSpace.le_searchEnd _ _ _ _ _
  apply packDown_packs out space.sentHead _ ⟨space.sent, space.endOfPackets threshold, []⟩
  · show space.sentHead + (space.endOfPackets threshold - space.sentHead) ≤ space.endOfPackets threshold
    omega
  · exact fits

theorem lossPass {out : QUICSentPacket → Bool} (lost : QUICSentPacket → Bool)
    {packets sent : List QUICSentPacket} {stop : Nat} {first : Packing}
    (packs : Packs out packets ⟨sent, stop, []⟩ first) (fits : stop ≤ sent.length) :
    Packs lost (packets.filter fun packet => !out packet) ⟨first.sent, stop, []⟩
      (packDown lost first.keep (stop - first.keep) ⟨first.sent, stop, []⟩) := by
  have most : first.keep ≤ stop := packs.keep
  have length : first.sent.length = sent.length := packs.length
  have packed : first.sent.drop first.keep = packets.filter (fun packet => !out packet) ++
    sent.drop stop := packs.packed
  have count : (packets.filter fun packet => !out packet).length = stop - first.keep := by
    have lengths := congrArg List.length packed
    rw [length_append, length_drop, length_drop, length] at lengths
    omega
  have same : slots first.sent first.keep (stop - first.keep) = packets.filter fun packet => !out packet := by
    unfold slots
    rw [drop_take, Nat.add_sub_cancel_left, packed, ← count, take_left]
  rw [← same]
  apply packDown_packs lost first.keep _ ⟨first.sent, stop, []⟩
  · show first.keep + (stop - first.keep) ≤ stop
    omega
  · show stop ≤ first.sent.length
    omega

/-- Either nothing is acknowledged and nothing changes, or the packets that are looked at are
settled as they are selected. -/
theorem onAck_cases (space : QUICPacketSpace) (recovery : QUICRecovery) (ranges : List PacketRange)
    (largestAcked ackDelayMs nowMs : Nat) : (ackedOf space ranges largestAcked = [] ∧
      onAck space recovery ranges largestAcked ackDelayMs nowMs = ({}, space, recovery)) ∨
    (ackedOf space ranges largestAcked ≠ [] ∧ Acknowledges space recovery ranges largestAcked ackDelayMs
      nowMs (onAck space recovery ranges largestAcked ackDelayMs nowMs).1
      (onAck space recovery ranges largestAcked ackDelayMs nowMs).2.1
      (onAck space recovery ranges largestAcked ackDelayMs nowMs).2.2) := by
  have parts := fun threshold => seen_append_unseen space threshold
  unfold onAck
  split
  next none =>
    apply Or.inl
    have empty : space.unsettled = [] := drop_eq_nil_of_le (by
      unfold QUICPacketSpace.outstanding at none
      omega)
    simp only [empty, append_eq_nil_iff] at parts
    exact ⟨by simp [ackedOf, parts], rfl⟩
  next some =>
  have inside : space.sentHead ≤ space.sent.length := by
    unfold QUICPacketSpace.outstanding at some
    omega
  extract_lets threshold head «end» first acked sampled' acks delay survivors second lost staying
    settled advanced recovered
  have reached : head ≤ «end» := QUICPacketSpace.le_searchEnd _ _ _ _ _
  have fits : «end» ≤ space.sent.length := QUICPacketSpace.searchEnd_le _ _ _ inside
  have packs : Packs (isAcked ranges largestAcked) (seen space threshold) ⟨space.sent, «end», []⟩
      first := ackPass _ space threshold fits
  have taken : acked = ackedOf space ranges largestAcked := by
    have all := packs.taken
    rw [append_nil] at all
    exact all
  split
  next none =>
    have empty : seen space threshold = [] := by
      show slots space.sent head («end» - head) = []
      rw [none, Nat.sub_self]
      exact slots_zero space.sent head
    have no : ackedOf space ranges largestAcked = [] := by
      unfold ackedOf
      rw [empty, filter_nil]
    exact .inl ⟨no, rfl⟩
  split
  next _ none =>
    have no : ackedOf space ranges largestAcked = [] := taken ▸ List.isEmpty_iff.mp none
    have idle : first = ⟨space.sent, head, []⟩ := by
      have whole : «end» = head + («end» - head) := by omega
      have pass := packDown_idle (isAcked ranges largestAcked) head («end» - head) space.sent [] (by omega) no
      rw [← whole] at pass
      exact pass
    refine .inl ⟨no, ?_⟩
    rw [idle]
  next _ found =>
    have known : ackedOf space ranges largestAcked ≠ [] := by
      intro no
      rw [taken, no] at found
      exact found rfl
    have sampling : sampled' = sampled space recovery ranges largestAcked ackDelayMs nowMs := by
      show (sampleRTT recovery acked largestAcked ackDelayMs nowMs).onAckReceived = _
      rw [taken]
      rfl
    have repacks : Packs (isLost threshold delay nowMs) (survivorsOf space ranges largestAcked)
        ⟨first.sent, «end», []⟩ second := lossPass _ packs fits
    have ordered : head ≤ second.keep := by
      have one := packDown_keep (isAcked ranges largestAcked) head («end» - head) ⟨space.sent, «end», []⟩
      have two := packDown_keep (isLost threshold delay nowMs) survivors («end» - survivors) ⟨first.sent, «end», []⟩
      have low : «end» - («end» - head) ≤ survivors := one
      have high : «end» - («end» - survivors) ≤ second.keep := two
      have most : survivors ≤ «end» := packs.keep
      omega
    have most : second.keep ≤ settled.sent.length := by
      have keep : second.keep ≤ «end» := repacks.keep
      have again : second.sent.length = first.sent.length := repacks.length
      have length : first.sent.length = space.sent.length := packs.length
      show second.keep ≤ second.sent.length
      omega
    obtain ⟨counter, next, largest⟩ := advanceHead_fields settled second.keep
    have lostAll : lost = (survivorsOf space ranges largestAcked).filter (isLost threshold delay nowMs) := by
      have all := repacks.taken
      rw [append_nil] at all
      exact all
    have unsettled : (settled.advanceHead second.keep).unsettled = second.sent.drop second.keep :=
      QUICPacketSpace.advanceHead_unsettled settled ordered
    have behind : first.sent.drop «end» = unseen space threshold := packs.rest
    have delayed : delay = (sampled space recovery ranges largestAcked ackDelayMs nowMs).lossDelayMs := by
      rw [← sampling]
    refine .inr ⟨known, taken, ?_, ?_, counter, next, largest,
      QUICPacketSpace.advanceHead_inside settled ordered most, ?_⟩
    · rw [← delayed]
      exact lostAll
    · rw [← delayed]
      show (settled.advanceHead second.keep).unsettled = _
      rw [unsettled, ← behind]
      exact repacks.packed
    · rw [← sampling]

theorem outcome_acked (increasing : space.Increasing) (largest : ∀ range ∈ ranges, range.high ≤ largestAcked) :
    space.unsettled.filter (covered ranges) = ackedOf space ranges largestAcked ∧
      space.unsettled.filter (fun packet => !covered ranges packet) = survivorsOf space ranges largestAcked ++
          beyond space (max (space.largestAckedPacket.getD largestAcked) largestAcked) := by
  unfold ackedOf survivorsOf
  rw [seen_eq_looked increasing, isAcked_eq_covered largest]
  apply filter_unsettled increasing (covered ranges)
  intro packet hit
  obtain ⟨range, member, inside⟩ := any_eq_true.mp hit
  have below := ((PacketRange.contains_iff range packet.packetNumber).mp inside).2
  exact (below.trans (largest range member)).trans (le_max_right _ _)

theorem isLost_eq (threshold delay nowMs : Nat) :
    isLost threshold delay nowMs = fun packet => decide (packet.packetNumber < threshold ∧
      (QUICRecovery.packetThreshold ≤ threshold - packet.packetNumber ∨ delay ≤ nowMs - packet.sentAtMs)) := by
  funext packet
  simp only [isLost, decide_and, decide_or]

theorem outcome_eq (increasing : space.Increasing) (largest : ∀ range ∈ ranges, range.high ≤ largestAcked) :
    let threshold := max (space.largestAckedPacket.getD largestAcked) largestAcked
    let delay := (sampled space recovery ranges largestAcked ackDelayMs nowMs).lossDelayMs
    let survivors := survivorsOf space ranges largestAcked
    outcome space recovery ranges largestAcked ackDelayMs nowMs =
      { acked := ackedOf space ranges largestAcked
        lost := survivors.filter (isLost threshold delay nowMs)
        staying := survivors.filter (fun packet => !isLost threshold delay nowMs packet) ++
          unseen space threshold } := by
  intro threshold delay survivors
  rw [unseen_eq_beyond increasing]
  obtain ⟨acked, remaining⟩ := outcome_acked increasing largest
  have low : ∀ packet, isLost threshold delay nowMs packet = true → packet.packetNumber ≤ threshold := by
    intro packet hit
    simp only [isLost, and_eq_true, decide_eq_true_eq] at hit
    exact hit.1.le
  obtain ⟨unlost, kept⟩ := filter_beyond increasing _ low
  rw [isLost_eq] at unlost kept ⊢
  unfold outcome
  simp only [acked, remaining, filter_append]
  congr 1
  · exact (congrArg (_ ++ ·) unlost).trans (append_nil _)
  · exact congrArg (_ ++ ·) kept

/-- `onAck` agrees with the plain specification. When no outstanding packet is covered it changes
nothing; otherwise it takes out the covered and the lost packets, each in send order, and leaves the
rest in their order. -/
theorem onAck_agrees (space : QUICPacketSpace) (recovery : QUICRecovery) (ranges : List PacketRange)
    (largestAcked ackDelayMs nowMs : Nat) (increasing : space.Increasing)
    (largest : ∀ range ∈ ranges, range.high ≤ largestAcked) :
    let plain := outcome space recovery ranges largestAcked ackDelayMs nowMs
    let done := onAck space recovery ranges largestAcked ackDelayMs nowMs
    (plain.acked = [] → done = ({}, space, recovery)) ∧
      (plain.acked ≠ [] → done.1.acked = plain.acked ∧ done.1.lost = plain.lost ∧
        done.2.1.unsettled = plain.staying) := by
  intro plain done
  have plainly : plain = _ := outcome_eq recovery ackDelayMs nowMs increasing largest
  rw [plainly]
  rcases onAck_cases space recovery ranges largestAcked ackDelayMs nowMs with ⟨none, unchanged⟩ | ⟨some, settles⟩
  · exact ⟨fun _ => unchanged, fun some => absurd none some⟩
  · refine ⟨fun none => absurd none some, fun _ => ?_⟩
    exact ⟨settles.acked, settles.lost, settles.staying⟩

/-- Six packets; the ACK covers the second and the fifth, so that the first is too far behind, the
third too old, and the other two stay. -/
theorem onAck_agrees_six :
    let packet := fun number sentAtMs : Nat =>
      ({ packetNumber := number, sentAtMs := sentAtMs, size := 100, ackEliciting := true,
         inFlight := true, frames := {}, largestAcked := none } : QUICSentPacket)
    let space : QUICPacketSpace := { nextPacketNumber := 6, ackElicitingInFlight := 6, sent :=
      [packet 0 90, packet 1 90, packet 2 90, packet 3 2000, packet 4 2000, packet 5 2000] }
    let done := onAck space {} [⟨4, 4⟩, ⟨1, 1⟩] 4 0 2000
    done.1.acked.map QUICSentPacket.packetNumber = [1, 4] ∧ done.1.lost.map QUICSentPacket.packetNumber = [0, 2] ∧
      done.2.1.unsettled.map QUICSentPacket.packetNumber = [3, 5] ∧
      done.1.lost = (outcome space {} [⟨4, 4⟩, ⟨1, 1⟩] 4 0 2000).lost := by
  intro packet space done
  have increasing : space.Increasing := by
    unfold QUICPacketSpace.Increasing
    decide
  have agrees := onAck_agrees space {} [⟨4, 4⟩, ⟨1, 1⟩] 4 0 2000 increasing (by decide)
  have some : (outcome space {} [⟨4, 4⟩, ⟨1, 1⟩] 4 0 2000).acked ≠ [] := by decide
  exact ⟨by decide, by decide, by decide, (agrees.2 some).2.1⟩

end

end QUICLossDetection
end AvianCore.Quic
