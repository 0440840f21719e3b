import AvianCore.Quic.Numbers

/-!
The decoder of packet numbers on machine words (`quicDecodePacketNumber`), with the conversions that trap: it
agrees with the one on naturals, and recovers every number that the length chooser wrote for a peer that is less
than half a window away, on either side.
-/

namespace AvianCore.Quic
open BitVec

/-- A conversion between `Int64` and `UInt64`, which traps on what the other type does not have. -/
def convert (x : BitVec 64) : Option (BitVec 64) := if x.msb then none else some x

/-- `quicDecodePacketNumber` in wrapping signed arithmetic. -/
def quicDecodePacketNumber64 (largestReceived truncated : BitVec 64) (bits : Nat) : Option (BitVec 64) :=
  let expected := largestReceived + 1#64
  let window := 1#64 <<< bits
  let halfWindow := window.sdiv 2#64
  (convert truncated).bind fun truncated =>
    let candidate := expected &&& ~~~(window - 1#64) ||| truncated
    if candidate.sle (expected - halfWindow) ∧ candidate.slt (1#64 <<< 62 - window) then convert (candidate + window)
    else if (expected + halfWindow).slt candidate ∧ window.sle candidate then convert (candidate - window)
    else convert candidate

theorem convert_small {x : BitVec 64} (small : x.toNat < 2 ^ 63) : convert x = some x := by
  have positive : x.msb = false := by
    rw [msb_eq_false_iff_two_mul_lt]
    omega
  rw [convert, positive]
  rfl

theorem toInt_small {x : BitVec 64} (small : x.toNat < 2 ^ 63) : x.toInt = x.toNat := toInt_eq_toNat_of_lt (by omega)

theorem toInt_difference {a b : BitVec 64} (small : a.toNat < 2 ^ 63) (small' : b.toNat < 2 ^ 63) :
    (a - b).toInt = a.toNat - b.toNat := by
  rw [toInt_sub, toInt_small small, toInt_small small']
  exact Int.bmod_eq_of_le (by omega) (by omega)

theorem toNat_clearLow (x : BitVec 64) {k : Nat} (few : k < 64) :
    (x &&& ~~~(1#64 <<< k - 1#64)).toNat = x.toNat / 2 ^ k * 2 ^ k := by
  have less : 2 ^ k < 2 ^ 64 := Nat.pow_lt_pow_right (by decide) few
  have mask : (1#64 <<< k - 1#64).toNat = 2 ^ k - 1 := by
    have positive := Nat.two_pow_pos k
    rw [toNat_sub, toNat_shiftLeft]
    simp only [toNat_ofNat, Nat.shiftLeft_eq]
    omega
  have shifted : x &&& ~~~(1#64 <<< k - 1#64) = x >>> k <<< k := by
    apply eq_of_getLsbD_eq
    intro i inside
    have bit : (1#64 <<< k - 1#64).getLsbD i = decide (i < k) := by
      rw [BitVec.getLsbD, mask, Nat.testBit_two_pow_sub_one]
    rw [getLsbD_and, getLsbD_not, getLsbD_shiftLeft, getLsbD_ushiftRight, bit]
    by_cases low : i < k
    · simp [low]
    · simp [low, inside, Nat.add_sub_of_le (Nat.le_of_not_lt low)]
  have most : x.toNat / 2 ^ k * 2 ^ k ≤ x.toNat := Nat.div_mul_le_self _ _
  rw [shifted, toNat_shiftLeft, toNat_ushiftRight, Nat.shiftRight_eq_div_pow, Nat.shiftLeft_eq,
    Nat.mod_eq_of_lt (by omega)]

theorem quicDecodePacketNumber64_eq {r : Int} (least : -1 ≤ r) (most : r < 2 ^ 62 + 2 ^ 32) {bits truncated : Nat}
    (width : bits = 8 ∨ bits = 16 ∨ bits = 24 ∨ bits = 32) (fits : truncated < 2 ^ bits) :
    (quicDecodePacketNumber64 (BitVec.ofInt 64 r) (BitVec.ofNat 64 truncated) bits).map BitVec.toNat =
      some (quicDecodePacketNumber r truncated bits) := by
  have next : (BitVec.ofInt 64 r + 1#64).toNat = (r + 1).toNat := by
    rw [toNat_add, toNat_ofInt]
    simp only [toNat_ofNat]
    omega
  have few : bits < 64 := by omega
  have halves : (1#64 <<< bits).sdiv 2#64 = BitVec.ofNat 64 (2 ^ bits / 2) ∧
      1#64 <<< bits = BitVec.ofNat 64 (2 ^ bits) ∧ 2 ^ bits / 2 * 2 = 2 ^ bits ∧ 2 ^ bits ≤ 2 ^ 32 := by
    rcases width with rfl | rfl | rfl | rfl <;> decide
  obtain ⟨half, whole, even, small⟩ := halves
  have cleared := toNat_clearLow (BitVec.ofInt 64 r + 1#64) few
  have known : (BitVec.ofNat 64 truncated).toNat = truncated := by
    rw [toNat_ofNat]
    omega
  unfold quicDecodePacketNumber64 quicDecodePacketNumber
  rw [convert_small (by omega), Option.bind_some, half]
  dsimp only
  rw [next] at cleared
  generalize expected : BitVec.ofInt 64 r + 1#64 = e at next cleared ⊢
  have candidate : (e &&& ~~~(1#64 <<< bits - 1#64) ||| BitVec.ofNat 64 truncated).toNat =
      (r + 1).toNat / 2 ^ bits * 2 ^ bits + truncated := by
    rw [toNat_or, cleared, known, Nat.mul_comm, Nat.two_pow_add_eq_or_of_lt fits]
  rw [whole] at candidate ⊢
  have below := Nat.div_mul_le_self (r + 1).toNat (2 ^ bits)
  generalize (e &&& ~~~(BitVec.ofNat 64 (2 ^ bits) - 1#64) ||| BitVec.ofNat 64 truncated) = x at candidate ⊢
  rw [← candidate]
  generalize 2 ^ bits = w at *
  have width : (BitVec.ofNat 64 w).toNat = w := by
    rw [toNat_ofNat]
    omega
  have halfWidth : (BitVec.ofNat 64 (w / 2)).toNat = w / 2 := by
    rw [toNat_ofNat]
    omega
  have sum : (e + BitVec.ofNat 64 (w / 2)).toNat = (r + 1).toNat + w / 2 := by
    rw [toNat_add, next, halfWidth]
    omega
  have top : (1#64 <<< 62).toNat = 2 ^ 62 := by decide
  have raised : (x + BitVec.ofNat 64 w).toNat = x.toNat + w := by
    rw [toNat_add, width]
    omega
  have low : (x.sle (e - BitVec.ofNat 64 (w / 2)) = true ∧ x.slt (1#64 <<< 62 - BitVec.ofNat 64 w) = true) ↔
      x.toNat + w / 2 ≤ (r + 1).toNat ∧ x.toNat + w < 2 ^ 62 := by
    rw [sle_iff_toInt_le, slt_iff_toInt_lt, toInt_difference (by omega) (by omega),
      toInt_difference (by omega) (by omega), toInt_small (by omega), next, halfWidth, top, width]
    omega
  have high : ((e + BitVec.ofNat 64 (w / 2)).slt x = true ∧ (BitVec.ofNat 64 w).sle x = true) ↔
      (r + 1).toNat + w / 2 < x.toNat ∧ w ≤ x.toNat := by
    rw [sle_iff_toInt_le, slt_iff_toInt_lt, toInt_small (by omega), toInt_small (by omega),
      toInt_small (by omega), width, sum]
    omega
  by_cases behind : x.toNat + w / 2 ≤ (r + 1).toNat ∧ x.toNat + w < 2 ^ 62
  · rw [if_pos behind, if_pos (low.mpr behind), convert_small (by omega), Option.map_some, raised]
  rw [if_neg behind, if_neg (low.not.mpr behind)]
  by_cases ahead : (r + 1).toNat + w / 2 < x.toNat ∧ w ≤ x.toNat
  · have lowered : (x - BitVec.ofNat 64 w).toNat = x.toNat - w := by rw [toNat_sub_of_le (by rw [le_def]; omega), width]
    rw [if_pos ahead, if_pos (high.mpr ahead), convert_small (by omega), Option.map_some, lowered]
  · rw [if_neg ahead, if_neg (high.not.mpr ahead), convert_small (by omega), Option.map_some]

theorem quicPacketNumberLength_range (full : Nat) (largestAcked : Option Nat) :
    let pnLength := quicPacketNumberLength full largestAcked
    8 * pnLength = 8 ∨ 8 * pnLength = 16 ∨ 8 * pnLength = 24 ∨ 8 * pnLength = 32 := by
  dsimp only [quicPacketNumberLength]
  split_ifs <;> decide

/-- A peer that expects a number less than half a window away recovers the number from the bytes that are sent,
whatever was acknowledged; nothing traps on the way. -/
theorem packet_number_recovered {full : Nat} {acked : Option Nat} {r : Int} (small : full < 2 ^ 62) (least : -1 ≤ r)
    (near : |(full : Int) - (r + 1)| < (2 ^ (8 * quicPacketNumberLength full acked - 1) : Nat)) :
    (quicDecodePacketNumber64 (BitVec.ofInt 64 r) (BitVec.ofNat 64 (full % 2 ^ (8 * quicPacketNumberLength full acked)))
      (8 * quicPacketNumberLength full acked)).map BitVec.toNat = some full := by
  have width := quicPacketNumberLength_range full acked
  have close := abs_lt.mp near
  have window : 2 ^ (8 * quicPacketNumberLength full acked - 1) ≤ 2 ^ 31 := Nat.pow_le_pow_right (by decide) (by omega)
  rw [quicDecodePacketNumber64_eq least (by omega) width (Nat.mod_lt _ (Nat.two_pow_pos _)),
    quicDecodePacketNumber_near (by omega) (by omega) (by omega) small]

/-- Packet 300 behind an acknowledged 250, read by a peer that has 290. -/
theorem packet_number_recovered_wrap :
    (quicDecodePacketNumber64 (BitVec.ofInt 64 290) (BitVec.ofNat 64 (300 % 2 ^ (8 * 1))) (8 * 1)).map BitVec.toNat =
      some 300 :=
  @packet_number_recovered 300 (some 250) 290 (by decide) (by decide) (by decide)

end AvianCore.Quic
