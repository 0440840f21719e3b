import AvianCore.Quic.AckRanges
import AvianCore.Quic.TransportParameters

/-!
What one endpoint writes, the other reads back: varints, the ranges of an ACK frame, the transport parameters.
-/

namespace AvianCore.Quic
open List Option

theorem toNat_byteAt (value shift : Nat) : (byteAt value shift).toNat = value / 2 ^ shift % 256 := by
  rw [byteAt, UInt8.toNat_ofNat', Nat.shiftRight_eq_div_pow]

theorem toNat_tagged : ∀ kind < 4, ∀ high < 64,
    (UInt8.ofNat high ||| UInt8.ofNat (kind * 64)).toNat = kind * 64 + high := by
  decide +kernel

theorem varint_tagged (kind high : Nat) (top : high < 64) (first : UInt8) (tagged : first.toNat = kind * 64 + high)
    (tail : Bytes) (offset : Nat) (enough : 2 ^ kind ≤ tail.length + 1) :
    (⟨first :: tail, offset⟩ : QUICReader).varint =
      some (bigEndian high (tail.take (2 ^ kind - 1)), ⟨tail.drop (2 ^ kind - 1), offset + 2 ^ kind⟩) := by
  have width : 1 <<< (first.toNat >>> 6) = 2 ^ kind := by
    have index : first.toNat / 2 ^ 6 = kind := by omega
    rw [Nat.shiftRight_eq_div_pow, Nat.shiftLeft_eq, Nat.one_mul, index]
  have value : first.toNat &&& 0x3F = high := by
    rw [show (0x3F : Nat) = 2 ^ 6 - 1 by decide, Nat.and_two_pow_sub_one_eq_mod]
    omega
  obtain ⟨more, shape⟩ : ∃ more, 2 ^ kind = more + 1 := Nat.exists_eq_add_one.mpr (Nat.two_pow_pos kind)
  simp only [QUICReader.varint, width, value, length_cons]
  rw [if_neg (by omega), QUICReader.advance, shape]
  rfl

variable {value : Nat}

theorem varint_wide (kind shift : Nat) (few : kind < 4) (small : value < 64 * 2 ^ shift) (tail : Bytes)
    (width : 2 ^ kind = tail.length + 1) (whole : bigEndian (value >>> shift) tail = value) (rest : Bytes)
    (offset : Nat) :
    (⟨(byteAt value shift ||| UInt8.ofNat (kind * 64)) :: (tail ++ rest), offset⟩ : QUICReader).varint =
      some (value, ⟨rest, offset + 2 ^ kind⟩) := by
  have high : value >>> shift < 64 := by
    rw [Nat.shiftRight_eq_div_pow]
    exact Nat.div_lt_of_lt_mul (by rwa [Nat.mul_comm])
  have read := varint_tagged kind _ high _ (toNat_tagged kind few _ high) (tail ++ rest) offset (by simp [width])
  rw [width, Nat.add_sub_cancel, take_left, drop_left, whole, ← width] at read
  exact read

theorem varint_write (small : value ≤ quicVarintMax) (rest : Bytes) (offset : Nat) :
    (⟨quicWriteVarint value ++ rest, offset⟩ : QUICReader).varint =
      some (value, ⟨rest, offset + quicVarintLength value⟩) := by
  unfold quicVarintMax at small
  unfold quicWriteVarint quicVarintLength
  split_ifs with one two four
  · have first : (byteAt value 0).toNat = 0 * 64 + value := by
      rw [toNat_byteAt]
      omega
    exact varint_tagged 0 value one _ first rest offset (by simp)
  · have whole : bigEndian (value >>> 8) [byteAt value 0] = value := by
      simp only [bigEndian, foldl_cons, foldl_nil, toNat_byteAt, Nat.shiftRight_eq_div_pow]
      omega
    exact varint_wide 1 8 (by decide) (by omega) _ rfl whole rest offset
  · have whole : bigEndian (value >>> 24) [byteAt value 16, byteAt value 8, byteAt value 0] = value := by
      simp only [bigEndian, foldl_cons, foldl_nil, toNat_byteAt, Nat.shiftRight_eq_div_pow]
      omega
    exact varint_wide 2 24 (by decide) (by omega) _ rfl whole rest offset
  have whole : bigEndian (value >>> 56) [byteAt value 48, byteAt value 40, byteAt value 32, byteAt value 24,
      byteAt value 16, byteAt value 8, byteAt value 0] = value := by
    simp only [bigEndian, foldl_cons, foldl_nil, toNat_byteAt, Nat.shiftRight_eq_div_pow]
    omega
  exact varint_wide 3 56 (by decide) (by omega) _ rfl whole rest offset

theorem length_le_writeAckGaps (previousLow : Nat) (ranges : List PacketRange) :
    ranges.length ≤ (writeAckGaps previousLow ranges).length := by
  induction ranges generalizing previousLow with
  | nil => exact Nat.zero_le _
  | cons r rest ih =>
    have positive := quicVarintLength_pos (r.high - r.low)
    have later := ih r.low
    simp only [writeAckGaps, length_append, length_quicWriteVarint, length_cons]
    omega

theorem readAckRanges_write (ranges : List PacketRange) (previousLow fuel offset : Nat) (rest : Bytes)
    (separated : Separated ranges) (under : ∀ range ∈ ranges, range.high + 2 ≤ previousLow)
    (small : previousLow ≤ quicVarintMax) (enough : ranges.length ≤ fuel) :
    ∃ later, readAckRanges fuel ranges.length previousLow ⟨writeAckGaps previousLow ranges ++ rest, offset⟩ =
      some (ranges, ⟨rest, later⟩) := by
  induction ranges generalizing previousLow fuel offset with
  | nil => exact ⟨offset, by rw [length_nil, readAckRanges]; rfl⟩
  | cons r lower ih =>
    obtain ⟨more, rfl⟩ : ∃ more, fuel = more + 1 := Nat.exists_eq_add_one.mpr (by simp at enough; omega)
    have gap := under r (by simp)
    have order := separated.nonempty r (by simp)
    have tail : Separated ([r] ++ lower) := separated
    obtain ⟨later, read⟩ := ih r.low more (offset + quicVarintLength (previousLow - r.high - 2) +
      quicVarintLength (r.high - r.low)) tail.right (fun range member => tail.cross (by simp) member)
      (by omega) (by simpa using enough)
    have step : addWrapping (previousLow - r.high - 2) 2 = previousLow - r.high := by
      unfold quicVarintMax at small
      unfold addWrapping
      omega
    refine ⟨later, ?_⟩
    rw [length_cons, writeAckGaps, readAckRanges, append_assoc, append_assoc, varint_write (by omega)]
    simp only [bind_eq_bind, bind_some]
    rw [varint_write (by omega)]
    simp only [bind_some]
    rw [step, if_neg (by omega), if_neg (by omega), show previousLow - (previousLow - r.high) = r.high by omega,
      show r.high - (r.high - r.low) = r.low by omega, read]
    rfl

variable {acks : QUICAckRanges}

theorem readAckFrame_write {first : PacketRange} {lower : List PacketRange}
    (shape : acks.ranges = first :: lower) (separated : Separated acks.ranges) (small : first.high ≤ quicVarintMax)
    (few : lower.length ≤ quicVarintMax) {delay : Nat} (short : delay ≤ quicVarintMax) (rest : Bytes) :
    ∃ r later, (⟨writeAckFrame acks delay ++ rest, 0⟩ : QUICReader).varint = some (FrameType.ack.code, r) ∧
      quicReadAckFrame r false = some (acks.ranges, delay, ⟨rest, later⟩) := by
  rw [shape] at separated ⊢
  have order := separated.nonempty first (by simp)
  have tail : Separated ([first] ++ lower) := separated
  have written : writeAckFrame acks delay ++ rest = quicWriteVarint FrameType.ack.code ++
      (quicWriteVarint first.high ++ (quicWriteVarint delay ++ (quicWriteVarint lower.length ++
        (quicWriteVarint (first.high - first.low) ++ (writeAckGaps first.low lower ++ rest))))) := by
    simp only [writeAckFrame, shape, append_assoc]
  have enough := length_le_writeAckGaps first.low lower
  obtain ⟨later, read⟩ := readAckRanges_write lower first.low ((writeAckGaps first.low lower ++ rest).length + 1)
    (0 + quicVarintLength FrameType.ack.code + quicVarintLength first.high + quicVarintLength delay +
      quicVarintLength lower.length + quicVarintLength (first.high - first.low)) rest tail.right
    (fun range member => tail.cross (by simp) member) (by omega) (by rw [length_append]; omega)
  refine ⟨_, later, by rw [written]; exact varint_write (by decide) _ _, ?_⟩
  unfold quicReadAckFrame
  rw [varint_write small]
  simp only [bind_eq_bind, bind_some]
  rw [varint_write short]
  simp only [bind_some]
  rw [varint_write few]
  simp only [bind_some]
  rw [varint_write (by omega)]
  simp only [bind_some]
  rw [if_neg (by omega), show first.high - (first.high - first.low) = first.low by omega, QUICReader.remaining, read]
  rfl

/-- The ranges the loop of `quicReadAckFrame` gives to its callback, also those before a malformed one. -/
def reportAckRanges : Nat → Nat → Nat → QUICReader → List PacketRange
  | _, 0, _, _ | 0, _ + 1, _, _ => []
  | fuel + 1, count + 1, smallest, r =>
    (do
      let (gap, r) ← r.varint
      let (length, r) ← r.varint
      let step := addWrapping gap 2
      if smallest < step then none
      else
        let high := smallest - step
        if high < length then none
        else some ((⟨high - length, high⟩ : PacketRange) :: reportAckRanges fuel count (high - length) r)).getD []

def quicReportAckFrame (r : QUICReader) : List PacketRange :=
  (do
    let (largest, r) ← r.varint
    let (_, r) ← r.varint
    let (count, r) ← r.varint
    let (firstRange, r) ← r.varint
    if largest < firstRange then none
    else
      some ((⟨largest - firstRange, largest⟩ : PacketRange) ::
        reportAckRanges (r.remaining + 1) count (largest - firstRange) r)).getD []

theorem reports {P : List PacketRange → Prop} {found : Option (List PacketRange)} (none : P [])
    (some : ∀ ranges, found = Option.some ranges → P ranges) : P (found.getD []) := by
  cases found with
  | none => exact none
  | some ranges => exact some ranges rfl

theorem reportAckRanges_separated (fuel count smallest : Nat) (r : QUICReader) :
    Separated (reportAckRanges fuel count smallest r) ∧
      ∀ range ∈ reportAckRanges fuel count smallest r, range.high + 2 ≤ smallest := by
  have none (smallest : Nat) : Separated [] ∧ ∀ range ∈ ([] : List PacketRange), range.high + 2 ≤ smallest :=
    ⟨.empty, by simp⟩
  induction fuel generalizing count smallest r with
  | zero => cases count <;> exact none smallest
  | succ fuel ih =>
    cases count with
    | zero => exact none smallest
    | succ count =>
      rw [reportAckRanges]
      refine reports (P := fun ranges => Separated ranges ∧ ∀ range ∈ ranges, range.high + 2 ≤ smallest)
        (none smallest) fun ranges found => ?_
      simp only [bind_eq_bind, bind_eq_some_iff] at found
      obtain ⟨⟨gap, next⟩, first, ⟨length, later⟩, second, found⟩ := found
      have small := QUICReader.varint_lt first
      have step : addWrapping gap 2 = gap + 2 := by
        unfold addWrapping
        omega
      dsimp only at found
      rw [step] at found
      split_ifs at found with wraps long
      cases found
      obtain ⟨lower, under⟩ := ih count (smallest - (gap + 2) - length) later
      refine ⟨Separated.between .empty lower (by simp) (by simp) under, ?_⟩
      intro range member
      rcases mem_cons.mp member with rfl | further
      · dsimp only
        omega
      · have far := under range further
        omega

theorem quicReportAckFrame_separated (r : QUICReader) : Separated (quicReportAckFrame r) ∧
    ∀ largest next, r.varint = some (largest, next) → ∀ range ∈ quicReportAckFrame r, range.high ≤ largest := by
  refine reports (P := fun ranges => Separated ranges ∧
    ∀ largest next, r.varint = some (largest, next) → ∀ range ∈ ranges, range.high ≤ largest)
    ⟨.empty, by simp⟩ fun ranges found => ?_
  simp only [bind_eq_bind, bind_eq_some_iff] at found
  obtain ⟨⟨largest, r1⟩, first, ⟨delay, r2⟩, second, ⟨count, r3⟩, third, ⟨firstRange, r4⟩, fourth, found⟩ := found
  dsimp only at found
  split_ifs at found with long
  cases found
  obtain ⟨lower, under⟩ := reportAckRanges_separated (r4.remaining + 1) count (largest - firstRange) r4
  refine ⟨Separated.between .empty lower (by simp) (by simp) under, ?_⟩
  intro same next read range member
  cases first.symm.trans read
  rcases mem_cons.mp member with rfl | further
  · exact le_rfl
  · have far := under range further
    omega

theorem reportAckRanges_read {fuel count smallest : Nat} {r later : QUICReader} {ranges : List PacketRange}
    (read : readAckRanges fuel count smallest r = some (ranges, later)) :
    reportAckRanges fuel count smallest r = ranges := by
  induction fuel generalizing count smallest r ranges with
  | zero =>
    cases count with
    | zero =>
      cases read
      rfl
    | succ count => cases read
  | succ fuel ih =>
    cases count with
    | zero =>
      cases read
      rfl
    | succ count =>
      rw [readAckRanges] at read
      rw [reportAckRanges]
      simp only [bind_eq_bind, bind_eq_some_iff] at read
      obtain ⟨⟨gap, next⟩, first, ⟨length, after⟩, second, read⟩ := read
      dsimp only at second read
      simp only [first, second, bind_eq_bind, bind_some]
      split_ifs at read ⊢
      obtain ⟨⟨lower, last⟩, found, same⟩ := bind_eq_some_iff.mp read
      cases same
      rw [ih found]
      rfl

theorem quicReportAckFrame_read {r later : QUICReader} {hasECN : Bool} {ranges : List PacketRange} {delay : Nat}
    (read : quicReadAckFrame r hasECN = some (ranges, delay, later)) : quicReportAckFrame r = ranges := by
  unfold quicReadAckFrame at read
  unfold quicReportAckFrame
  simp only [bind_eq_bind, bind_eq_some_iff] at read
  obtain ⟨⟨largest, r1⟩, first, ⟨delay', r2⟩, second, ⟨count, r3⟩, third, ⟨firstRange, r4⟩, fourth, read⟩ := read
  dsimp only at second third fourth read
  simp only [first, second, third, fourth, bind_eq_bind, bind_some]
  split_ifs at read ⊢
  · obtain ⟨⟨lower, last⟩, found, read⟩ := bind_eq_some_iff.mp read
    simp only [bind_eq_some_iff] at read
    obtain ⟨_, _, _, _, _, _, same⟩ := read
    cases same
    rw [reportAckRanges_read found]
    rfl
  obtain ⟨⟨lower, last⟩, found, same⟩ := bind_eq_some_iff.mp read
  cases same
  rw [reportAckRanges_read found]
  rfl

namespace QUICAckRanges

inductive Operation
  | add (packetNumber : Nat)
  | removeUpTo (packetNumber : Nat)

def apply (acks : QUICAckRanges) : Operation → QUICAckRanges
  | .add packetNumber => acks.add packetNumber
  | .removeUpTo packetNumber => acks.removeUpTo packetNumber

structure Kept (acks : QUICAckRanges) (maximumRanges bound : Nat) : Prop where
  proper : acks.Proper
  maximum : acks.maximumRanges = maximumRanges
  small : ∀ x, Among x acks.ranges → x ≤ bound

theorem Kept.apply {maximumRanges bound : Nat} (kept : acks.Kept maximumRanges bound)
    {operation : Operation} (small : ∀ n, operation = .add n → n ≤ bound) :
    (acks.apply operation).Kept maximumRanges bound := by
  cases operation with
  | add n =>
    refine ⟨kept.proper.add n, (maximumRanges_add acks n).trans kept.maximum, fun x among => ?_⟩
    rcases (((add_exact kept.proper n).2 x).mp among).1 with before | rfl
    · exact kept.small x before
    · exact small x rfl
  | removeUpTo n =>
    refine ⟨kept.proper.removeUpTo n, kept.maximum, fun x among => ?_⟩
    exact kept.small x (((removeUpTo_exact kept.proper n).2 x).mp among).1

theorem Kept.run {maximumRanges bound : Nat} (kept : acks.Kept maximumRanges bound)
    (operations : List Operation) (small : ∀ n, .add n ∈ operations → n ≤ bound) :
    (operations.foldl QUICAckRanges.apply acks).Kept maximumRanges bound := by
  induction operations generalizing acks with
  | nil => exact kept
  | cons operation operations ih =>
    refine ih (kept.apply fun n same => small n ?_) fun n member => small n (mem_cons_of_mem _ member)
    rw [same]
    exact mem_cons_self

/-- After any additions of packet numbers and any removals: the ranges descend, apart from each other and no more
than the maximum. The next addition puts in exactly its number, and drops only ranges beyond the maximum, which are
below all others; the next removal takes out exactly what is not above its number. A frame that is written is read
back as the same ranges and delay. And whatever the bytes, the reader reports only ranges that descend from the
largest number, apart from each other. -/
theorem ack_ranges_exact (maximumRanges : Nat) (operations : List Operation)
    (small : ∀ n, .add n ∈ operations → n ≤ quicVarintMax) :
    ∃ acks, acks = operations.foldl apply { maximumRanges := maximumRanges } ∧
      Separated acks.ranges ∧ acks.ranges.length ≤ maximumRanges ∧
      (∀ n, Separated ((acks.add n).ranges ++ acks.dropped n) ∧
        (acks.dropped n ≠ [] → (acks.add n).ranges.length = maximumRanges) ∧
        ∀ x, Among x (acks.add n).ranges ↔ (Among x acks.ranges ∨ x = n) ∧ ¬ Among x (acks.dropped n)) ∧
      (∀ n x, Among x (acks.removeUpTo n).ranges ↔ Among x acks.ranges ∧ n < x) ∧
      (∀ delay rest, acks.ranges ≠ [] → delay ≤ quicVarintMax →
        ∃ r later, (⟨writeAckFrame acks delay ++ rest, 0⟩ : QUICReader).varint = some (FrameType.ack.code, r) ∧
          quicReadAckFrame r false = some (acks.ranges, delay, ⟨rest, later⟩)) ∧
      ∀ r, Separated (quicReportAckFrame r) ∧
        (∀ largest next, r.varint = some (largest, next) → ∀ range ∈ quicReportAckFrame r, range.high ≤ largest) ∧
        ∀ hasECN fields, quicReadAckFrame r hasECN = some fields → quicReportAckFrame r = fields.1 := by
  have fresh : ({ maximumRanges := maximumRanges } : QUICAckRanges).Kept maximumRanges quicVarintMax :=
    ⟨.of_empty rfl, rfl, by simp [Among]⟩
  have kept := fresh.run operations small
  have bounded := kept.proper.bounded
  rw [kept.maximum] at bounded
  have separated := kept.proper.separated
  refine ⟨_, rfl, separated, bounded, fun n => ?_,
    fun n => (removeUpTo_exact kept.proper n).2, fun delay rest some short => ?_, fun r => ?_⟩
  · obtain ⟨apart, exact_⟩ := add_exact kept.proper n
    refine ⟨apart, fun lost => ?_, exact_⟩
    have whole := congrArg List.length (add_append_dropped kept.proper n).1
    have more := List.length_pos_iff.mpr lost
    rw [dropped, List.length_append, List.length_drop, kept.maximum] at whole
    rw [dropped, List.length_drop, kept.maximum] at more
    omega
  · obtain ⟨first, lower, shape⟩ := List.exists_cons_of_ne_nil some
    have highest := kept.small first.high ⟨first, by simp [shape], separated.nonempty first (by simp [shape]), le_rfl⟩
    have count := Separated.length_le (shape ▸ separated)
    exact readAckFrame_write shape separated highest (by omega) short rest
  · obtain ⟨apart, under⟩ := quicReportAckFrame_separated r
    exact ⟨apart, under, fun hasECN fields read => quicReportAckFrame_read read⟩

theorem ack_ranges_exact_gap : ∃ acks : QUICAckRanges,
    acks = [Operation.add 3, .add 1].foldl apply { maximumRanges := 32 } ∧ acks.ranges = [⟨3, 3⟩, ⟨1, 1⟩] ∧
      Separated acks.ranges := by
  obtain ⟨acks, same, separated, -⟩ := ack_ranges_exact 32 [.add 3, .add 1] (by simp; decide)
  exact ⟨acks, same, by rw [same]; decide, separated⟩

/-- No varint holds 2^62: it is read back as 0. -/
theorem wide_number_lost : ∃ acks : QUICAckRanges, acks = [Operation.add (2 ^ 62)].foldl apply { } ∧
    acks.ranges = [⟨2 ^ 62, 2 ^ 62⟩] ∧ ((⟨writeAckFrame acks 0, 0⟩ : QUICReader).varint.bind fun (_, r) =>
        (quicReadAckFrame r false).map (·.1)) = some [⟨0, 0⟩] :=
  ⟨_, rfl, by decide, by decide +kernel⟩

end QUICAckRanges

namespace QUICTransportParameters

def writeParameter (id : Nat) (body : Bytes) : Bytes := quicWriteVarint id ++ quicWriteVarint body.length ++ body

/-- The parameters in the order `encode` writes them: whether, which, and its body. -/
def parameters (p : QUICTransportParameters) (isServer : Bool) : List (Bool × Nat × Bytes) :=
  [(0 < p.maxIdleTimeoutMs, maxIdleTimeout, quicWriteVarint p.maxIdleTimeoutMs),
    (true, maxUDPPayloadSizeID, quicWriteVarint p.maxUDPPayloadSize),
    (true, initialMaxDataID, quicWriteVarint p.initialMaxData),
    (true, initialMaxStreamDataBidiLocalID, quicWriteVarint p.initialMaxStreamDataBidiLocal),
    (true, initialMaxStreamDataBidiRemoteID, quicWriteVarint p.initialMaxStreamDataBidiRemote),
    (true, initialMaxStreamDataUniID, quicWriteVarint p.initialMaxStreamDataUni),
    (true, initialMaxStreamsBidiID, quicWriteVarint p.initialMaxStreamsBidi),
    (true, initialMaxStreamsUniID, quicWriteVarint p.initialMaxStreamsUni),
    (true, ackDelayExponentID, quicWriteVarint p.ackDelayExponent),
    (true, maxAckDelay, quicWriteVarint p.maxAckDelayMs),
    (true, activeConnectionIDLimitID, quicWriteVarint p.activeConnectionIDLimit),
    (p.disableActiveMigration, disableActiveMigrationID, []),
    (0 < p.maxDatagramFrameSize, maxDatagramFrameSizeID, quicWriteVarint p.maxDatagramFrameSize),
    (p.hasInitialSourceCID, initialSourceConnectionID, p.initialSourceCID.bytes),
    (isServer && p.hasOriginalDestinationCID, originalDestinationConnectionID, p.originalDestinationCID.bytes),
    (isServer && !p.statelessResetToken.isEmpty, statelessResetTokenID, p.statelessResetToken)]

def write : List (Bool × Nat × Bytes) → Bytes
  | [] => []
  | (present, id, body) :: rest => (if present then writeParameter id body else []) ++ write rest

theorem encode_eq (p : QUICTransportParameters) (isServer : Bool) : p.encode isServer = write (p.parameters isServer) := by
  simp only [encode, parameters, write, writeParameter, writeInt, writeCID, QUICConnectionID.length,
    length_quicWriteVarint, append_assoc, append_nil, if_true, decide_eq_true_eq, length_nil]

/-- What the loop of `decode` does with the parameters, once their framing is read. -/
def take (fromServer : Bool) (out : QUICTransportParameters) : List (Bool × Nat × Bytes) → Option QUICTransportParameters
  | [] => some out
  | (present, id, body) :: rest =>
    if present then (decodeOne out id body fromServer).bind fun out => out.take fromServer rest
    else out.take fromServer rest

theorem decodeLoop_write (fromServer : Bool) (items : List (Bool × Nat × Bytes)) (fuel offset : Nat) (seen : List Nat)
    (out : QUICTransportParameters) (known : ∀ item ∈ items, item.2.1 ≤ maxDatagramFrameSizeID)
    (short : ∀ item ∈ items, item.2.2.length ≤ quicVarintMax) (once : (items.map (·.2.1)).Nodup)
    (fresh : ∀ item ∈ items, item.2.1 ∉ seen) (enough : (write items).length < fuel) :
    decodeLoop fromServer fuel seen out ⟨write items, offset⟩ = out.take fromServer items := by
  induction items generalizing fuel offset seen out with
  | nil =>
    obtain ⟨more, rfl⟩ := Nat.exists_eq_add_one.mpr enough
    rfl
  | cons item items ih =>
    obtain ⟨present, id, body⟩ := item
    obtain ⟨first, others⟩ := nodup_cons.mp once
    have later (next : List Nat) (new : ∀ item ∈ items, item.2.1 ∉ next) (fuel offset : Nat)
        (out : QUICTransportParameters) (enough : (write items).length < fuel) :
        decodeLoop fromServer fuel next out ⟨write items, offset⟩ = out.take fromServer items :=
      ih fuel offset next out (fun other member => known other (mem_cons_of_mem _ member))
        (fun other member => short other (mem_cons_of_mem _ member)) others new enough
    cases present with
    | false => exact later seen (fun other member => fresh other (mem_cons_of_mem _ member)) fuel offset out enough
    | true =>
      have id_le := known _ mem_cons_self
      have body_le := short _ mem_cons_self
      have unseen := fresh _ mem_cons_self
      dsimp only [maxDatagramFrameSizeID] at id_le body_le unseen first
      simp only [write, if_true, writeParameter, append_assoc, length_append, length_quicWriteVarint] at enough ⊢
      obtain ⟨more, rfl⟩ := Nat.exists_eq_add_one.mpr (Nat.zero_lt_of_lt enough)
      have positive := quicVarintLength_pos id
      have nonempty : (⟨quicWriteVarint id ++ (quicWriteVarint body.length ++ (body ++ write items)), offset⟩ :
          QUICReader).isEmpty = false := by
        rw [QUICReader.isEmpty, isEmpty_eq_false_iff, ← length_pos_iff, length_append, length_quicWriteVarint]
        omega
      rw [decodeLoop, nonempty, if_neg (by simp), varint_write (by unfold quicVarintMax; omega)]
      simp only [bind_eq_bind, bind_some, QUICReader.varintAsInt]
      rw [varint_write body_le]
      simp only [bind_some, QUICReader.take, QUICReader.advance]
      unfold quicVarintMax at body_le
      rw [if_pos (by omega)]
      simp only [bind_some]
      rw [if_neg (by simp)]
      simp only [bind_some, take_left, drop_left]
      rw [if_neg (fun both => unseen both.2), take, if_pos rfl]
      congr 1
      funext out
      refine later _ (fun other member => ?_) more _ out (by omega)
      rw [if_pos (show id ≤ maxDatagramFrameSizeID from id_le), mem_cons, not_or]
      refine ⟨fun same => first (mem_map.mpr ⟨other, member, same⟩), ?_⟩
      exact fresh other (mem_cons_of_mem _ member)

theorem readInt_write (small : value ≤ quicVarintMax) {check : Nat → Bool} (passes : check value = true) :
    readInt (quicWriteVarint value) check = some value := by
  have read := varint_write small [] 0
  rw [append_nil] at read
  simp only [readInt, read, bind_eq_bind, bind_some, passes, if_true]

theorem ofBytes_bytes (cid : QUICConnectionID) : QUICConnectionID.ofBytes cid.bytes = some cid := by
  rw [QUICConnectionID.ofBytes, dif_pos cid.bounded]

/-- What `decode` asks of the values, what a varint can carry, and that what is not sent has its default. -/
structure Sendable (p : QUICTransportParameters) (isServer : Bool) : Prop where
  maxIdleTimeoutMs : p.maxIdleTimeoutMs ≤ quicVarintMax
  maxUDPPayloadSize : 1200 ≤ p.maxUDPPayloadSize ∧ p.maxUDPPayloadSize ≤ quicVarintMax
  initialMaxData : p.initialMaxData ≤ quicVarintMax
  initialMaxStreamDataBidiLocal : p.initialMaxStreamDataBidiLocal ≤ quicVarintMax
  initialMaxStreamDataBidiRemote : p.initialMaxStreamDataBidiRemote ≤ quicVarintMax
  initialMaxStreamDataUni : p.initialMaxStreamDataUni ≤ quicVarintMax
  initialMaxStreamsBidi : p.initialMaxStreamsBidi ≤ 2 ^ 60
  initialMaxStreamsUni : p.initialMaxStreamsUni ≤ 2 ^ 60
  ackDelayExponent : p.ackDelayExponent ≤ 20
  maxAckDelayMs : p.maxAckDelayMs < 2 ^ 14
  activeConnectionIDLimit : 2 ≤ p.activeConnectionIDLimit ∧ p.activeConnectionIDLimit ≤ quicVarintMax
  maxDatagramFrameSize : p.maxDatagramFrameSize ≤ quicVarintMax
  token : p.statelessResetToken = [] ∨ p.statelessResetToken.length = 16
  retrySourceCID : p.retrySourceCID = {}
  serverOnly : isServer = false → p.hasOriginalDestinationCID = false ∧ p.originalDestinationCID = {} ∧
    p.statelessResetToken = []
  initialSourceCID : p.hasInitialSourceCID = false → p.initialSourceCID = {}
  originalDestinationCID : p.hasOriginalDestinationCID = false → p.originalDestinationCID = {}

variable {fromServer : Bool} {out : QUICTransportParameters} {id : Nat} {rest : List (Bool × Nat × Bytes)}

theorem take_int {check : Nat → Bool} {set : Nat → QUICTransportParameters}
    (reads : ∀ body, decodeOne out id body fromServer = (readInt body check).map set) (small : value ≤ quicVarintMax)
    (passes : check value = true) :
    out.take fromServer ((true, id, quicWriteVarint value) :: rest) = (set value).take fromServer rest := by
  rw [take, if_pos rfl, reads, readInt_write small passes]
  rfl

theorem take_optional {present : Bool} {body : Bytes} (n : QUICTransportParameters)
    (sent : present = true → decodeOne out id body fromServer = some n) (unsent : present = false → out = n) :
    out.take fromServer ((present, id, body) :: rest) = n.take fromServer rest := by
  cases present with
  | false => rw [take, if_neg (by simp), unsent rfl]
  | true =>
    rw [take, if_pos rfl, sent rfl]
    rfl

theorem take_parameters {p : QUICTransportParameters} {isServer : Bool} (sendable : p.Sendable isServer) :
    ({} : QUICTransportParameters).take isServer (p.parameters isServer) = some p := by
  have limit : 2 ^ 60 ≤ quicVarintMax := by decide
  have streamsBidi := sendable.initialMaxStreamsBidi
  have streamsUni := sendable.initialMaxStreamsUni
  have exponent := sendable.ackDelayExponent
  have delay := sendable.maxAckDelayMs
  refine (take_optional { maxIdleTimeoutMs := p.maxIdleTimeoutMs } (fun _ => ?_) (fun absent => ?_)).trans ?_
  · show (readInt _ fun _ => true).map _ = _
    rw [readInt_write sendable.maxIdleTimeoutMs rfl]
    rfl
  · rw [show p.maxIdleTimeoutMs = 0 by simpa using absent]
  rw [take_int (fun _ => rfl) sendable.maxUDPPayloadSize.2 (by simpa using sendable.maxUDPPayloadSize.1),
    take_int (fun _ => rfl) sendable.initialMaxData rfl,
    take_int (fun _ => rfl) sendable.initialMaxStreamDataBidiLocal rfl,
    take_int (fun _ => rfl) sendable.initialMaxStreamDataBidiRemote rfl,
    take_int (fun _ => rfl) sendable.initialMaxStreamDataUni rfl,
    take_int (fun _ => rfl) (streamsBidi.trans limit) (by simpa using streamsBidi),
    take_int (fun _ => rfl) (streamsUni.trans limit) (by simpa using streamsUni),
    take_int (fun _ => rfl) (by omega) (by simpa using exponent),
    take_int (fun _ => rfl) (by omega) (by simpa using delay),
    take_int (fun _ => rfl) sendable.activeConnectionIDLimit.2 (by simpa using sendable.activeConnectionIDLimit.1)]
  -- what `p` would be without the parameters still to come
  let tokenless := { p with retrySourceCID := {}, statelessResetToken := [] }
  let original := { tokenless with originalDestinationCID := {}, hasOriginalDestinationCID := false }
  let unnamed := { original with initialSourceCID := {}, hasInitialSourceCID := false }
  refine (take_optional { unnamed with maxDatagramFrameSize := 0 } (fun sent => ?_) (fun absent => ?_)).trans ?_
  · simp only [unnamed, original, tokenless, sent]
    rfl
  · simp only [unnamed, original, tokenless, absent]
  refine (take_optional unnamed (fun _ => ?_) (fun absent => ?_)).trans ?_
  · show (readInt _ fun _ => true).map _ = _
    rw [readInt_write sendable.maxDatagramFrameSize rfl]
    rfl
  · simp only [unnamed, original, tokenless, show p.maxDatagramFrameSize = 0 by simpa using absent]
  refine (take_optional original (fun sent => ?_) (fun absent => ?_)).trans ?_
  · simp only [unnamed, original, tokenless, sent]
    exact congrArg (Option.map _) (ofBytes_bytes p.initialSourceCID)
  · simp only [unnamed, original, tokenless, absent, sendable.initialSourceCID absent]
  refine (take_optional tokenless (fun sent => ?_) (fun absent => ?_)).trans ?_
  · obtain ⟨rfl, has⟩ := Bool.and_eq_true_iff.mp sent
    simp only [original, tokenless, has]
    exact congrArg (Option.map _) (ofBytes_bytes p.originalDestinationCID)
  · have unset : p.hasOriginalDestinationCID = false := by
      cases isServer with
      | true => exact absent
      | false => exact (sendable.serverOnly rfl).1
    simp only [original, tokenless, unset, sendable.originalDestinationCID unset]
  have whole : { p with retrySourceCID := {} } = p := by
    have unset := sendable.retrySourceCID
    cases p
    simp_all
  refine (take_optional { p with retrySourceCID := {} } (fun sent => ?_) (fun absent => ?_)).trans (congrArg some whole)
  · obtain ⟨rfl, filled⟩ := Bool.and_eq_true_iff.mp sent
    have length : p.statelessResetToken.length = 16 := by
      rcases sendable.token with none | sixteen
      · rw [none] at filled
        cases filled
      · exact sixteen
    simp [decodeOne, statelessResetTokenID, length, tokenless]
  · have unset : p.statelessResetToken = [] := by
      cases isServer with
      | true => simpa using absent
      | false => exact (sendable.serverOnly rfl).2.2
    simp only [tokenless, unset]

/-- The identifiers of the parameters that bytes are made of, as far as they can be read. -/
def framed : Nat → QUICReader → List Nat
  | 0, _ => []
  | fuel + 1, r =>
    (do
      let (id, r) ← r.varint
      let (length, r) ← r.varintAsInt
      let (_, r) ← r.take length
      some (id :: framed fuel r)).getD []

theorem decodeLoop_once {fuel : Nat} {seen : List Nat} {out result : QUICTransportParameters} {r : QUICReader}
    (read : decodeLoop fromServer fuel seen out r = some result) (id : Nat) (known : id ≤ maxDatagramFrameSizeID) :
    (framed fuel r).count id + (if id ∈ seen then 1 else 0) ≤ 1 := by
  induction fuel generalizing seen out r with
  | zero =>
    simp only [framed, count_nil]
    split_ifs <;> omega
  | succ fuel ih =>
    rw [decodeLoop] at read
    rw [framed]
    split_ifs at read with empty
    · obtain ⟨bytes, offset⟩ := r
      have none : bytes = [] := List.isEmpty_iff.mp empty
      subst none
      simp only [QUICReader.varint, bind_eq_bind, bind_none, getD_none, count_nil]
      split_ifs <;> omega
    simp only [bind_eq_bind, bind_eq_some_iff] at read
    obtain ⟨⟨first, r1⟩, named, ⟨length, r2⟩, sized, ⟨body, r3⟩, taken, read⟩ := read
    dsimp only at sized taken read
    simp only [named, sized, taken, bind_eq_bind, bind_some, getD_some, count_cons]
    by_cases again : first ≤ maxDatagramFrameSizeID ∧ first ∈ seen
    · rw [if_pos again] at read
      cases read
    rw [if_neg again] at read
    obtain ⟨next, -, read⟩ := bind_eq_some_iff.mp read
    have later := ih read
    by_cases same : first = id
    · subst same
      have new : first ∉ seen := fun member => again ⟨known, member⟩
      simp only [known, if_true, mem_cons, true_or] at later
      simp only [beq_self_eq_true, if_true, new, if_false]
      omega
    have kept : (id ∈ if first ≤ maxDatagramFrameSizeID then first :: seen else seen) ↔ id ∈ seen := by
      split_ifs
      · rw [mem_cons, or_iff_right (Ne.symm same)]
      · rfl
    simp only [kept] at later
    simpa [same] using later

/-- What `encode` writes is read back as it was, and bytes with a known parameter in them twice are refused. -/
theorem parameters_read_back (p : QUICTransportParameters) (isServer : Bool) :
    (p.Sendable isServer → decode (p.encode isServer) isServer = some p) ∧
      ∀ (bytes : Bytes) (fromServer : Bool) (id : Nat), id ≤ maxDatagramFrameSizeID →
        2 ≤ (framed (bytes.length + 1) ⟨bytes, 0⟩).count id → decode bytes fromServer = none := by
  constructor
  · intro sendable
    have short (value : Nat) : quicVarintLength value ≤ quicVarintMax := (quicVarintLength_le value).trans (by decide)
    have ids (cid : QUICConnectionID) : cid.bytes.length ≤ quicVarintMax := cid.bounded.trans (by decide)
    have token : p.statelessResetToken.length ≤ quicVarintMax := by
      rcases sendable.token with none | sixteen
      · rw [none]
        decide
      · rw [sixteen]
        decide
    rw [decode, encode_eq, decodeLoop_write, take_parameters sendable]
    · simp only [parameters, List.forall_mem_cons]
      decide
    · simp only [parameters, List.forall_mem_cons, length_quicWriteVarint, short, ids, token]
      decide
    · simp only [parameters, List.map_cons, List.map_nil]
      decide
    · simp
    · exact Nat.lt_succ_self _
  · intro bytes fromServer id known twice
    by_contra accepted
    obtain ⟨result, read⟩ := Option.ne_none_iff_exists'.mp accepted
    have once := decodeLoop_once read id known
    omega

/-- A server with identifiers and a token. -/
theorem parameters_read_back_server : ∃ p : QUICTransportParameters, p.originalDestinationCID.bytes = [1, 2, 3] ∧
    p.statelessResetToken.length = 16 ∧ decode (p.encode true) true = some p := by
  refine ⟨{
    initialMaxData := 1000000
    hasInitialSourceCID := true, initialSourceCID := ⟨[7], by decide⟩
    hasOriginalDestinationCID := true, originalDestinationCID := ⟨[1, 2, 3], by decide⟩
    statelessResetToken := List.replicate 16 5 }, rfl, rfl, (parameters_read_back _ true).1 ?_⟩
  constructor <;> decide

/-- An identifier that its flag says is not there is not sent. -/
theorem unflagged_identifier_lost : ∃ p : QUICTransportParameters, p.hasInitialSourceCID = false ∧
    p.initialSourceCID.bytes = [7] ∧ decode (p.encode true) true = some {} := by
  exact ⟨{ initialSourceCID := ⟨[7], by decide⟩ }, rfl, rfl, by decide⟩

end QUICTransportParameters

end AvianCore.Quic
