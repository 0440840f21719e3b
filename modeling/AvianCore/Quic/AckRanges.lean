import AvianCore.Quic.Loss

/-!
What the ack ranges remember: which packet numbers `add`, `removeUpTo` and the limit on the number
of ranges leave in the set.
-/

namespace AvianCore.Quic
open List

theorem PacketRange.contains_iff (range : PacketRange) (packetNumber : Nat) :
    range.contains packetNumber = true ↔ range.low ≤ packetNumber ∧ packetNumber ≤ range.high := by
  simp [PacketRange.contains]

def Among (x : Nat) (ranges : List PacketRange) : Prop := ∃ range ∈ ranges, range.low ≤ x ∧ x ≤ range.high

theorem among_append (x : Nat) (upper lower : List PacketRange) :
    Among x (upper ++ lower) ↔ Among x upper ∨ Among x lower := by
  simp [Among, or_and_right, exists_or]

theorem among_cons (x : Nat) (range : PacketRange) (lower : List PacketRange) :
    Among x (range :: lower) ↔ (range.low ≤ x ∧ x ≤ range.high) ∨ Among x lower := by
  simp [Among]

/-- Descending, with a number missing between any two. -/
structure Separated (ranges : List PacketRange) : Prop where
  apart : ranges.Pairwise fun upper lower => lower.high + 2 ≤ upper.low
  nonempty : ∀ range ∈ ranges, range.low ≤ range.high

namespace Separated
variable {upper lower ranges : List PacketRange} {range : PacketRange}

theorem left (separated : Separated (upper ++ lower)) : Separated upper :=
  ⟨(pairwise_append.mp separated.apart).1, fun _ member => separated.nonempty _ (mem_append_left _ member)⟩

theorem right (separated : Separated (upper ++ lower)) : Separated lower :=
  ⟨(pairwise_append.mp separated.apart).2.1, fun _ member => separated.nonempty _ (mem_append_right _ member)⟩

theorem cross (separated : Separated (upper ++ lower)) {above below : PacketRange} (high : above ∈ upper)
    (low : below ∈ lower) : below.high + 2 ≤ above.low :=
  (pairwise_append.mp separated.apart).2.2 _ high _ low

theorem between (above : Separated upper) (below : Separated lower) (order : range.low ≤ range.high)
    (beyond : ∀ high ∈ upper, range.high + 2 ≤ high.low) (under : ∀ low ∈ lower, low.high + 2 ≤ range.low) :
    Separated (upper ++ range :: lower) := by
  refine ⟨pairwise_append.mpr ⟨above.apart, pairwise_cons.mpr ⟨under, below.apart⟩, ?_⟩, ?_⟩
  · intro high member other rest
    have gap := beyond high member
    rcases mem_cons.mp rest with rfl | low
    · exact gap
    · have further := under other low
      omega
  · intro other member
    rcases mem_append.mp member with high | rest
    · exact above.nonempty other high
    rcases mem_cons.mp rest with rfl | low
    · exact order
    · exact below.nonempty other low

theorem length_le (separated : Separated (range :: lower)) : lower.length ≤ range.high := by
  induction lower generalizing range with
  | nil => exact Nat.zero_le _
  | cons next lower ih =>
    have rest : Separated ([range] ++ next :: lower) := separated
    have count := ih rest.right
    have gap := rest.cross mem_cons_self mem_cons_self
    have proper := separated.nonempty range mem_cons_self
    rw [length_cons]
    omega

theorem empty : Separated [] := ⟨.nil, by simp⟩

end Separated

namespace QUICAckRanges

theorem contains_iff (acks : QUICAckRanges) (packetNumber : Nat) :
    acks.contains packetNumber = true ↔ Among packetNumber acks.ranges := by
  simp [contains, PacketRange.contains_iff, Among]

/-- There are not too many ranges, and they are apart. -/
structure Proper (acks : QUICAckRanges) : Prop where
  bounded : acks.ranges.length ≤ acks.maximumRanges
  separated : Separated acks.ranges

variable {acks : QUICAckRanges}

theorem Proper.of_empty (empty : acks.ranges = []) : acks.Proper := ⟨by simp [empty], empty ▸ .empty⟩

/-- `add` puts one number in and no other, and the ranges stay apart. Those above have been passed because the number
is not next to them, so that the gap above a range never closes. -/
theorem place_exact (n : Nat) (above below : List PacketRange) (passed : ∀ range ∈ above, n + 2 ≤ range.low)
    (separated : Separated (above.reverse ++ below)) : Separated (place n above below).1 ∧
      ∀ x, Among x (place n above below).1 ↔ Among x (above.reverse ++ below) ∨ x = n := by
  have clear : ∀ range ∈ above.reverse, n + 2 ≤ range.low := by simpa using passed
  induction below generalizing above with
  | nil =>
    refine ⟨separated.left.between separated.right le_rfl clear (by simp), fun x => ?_⟩
    have single : n ≤ x ∧ x ≤ n ↔ x = n := by omega
    rw [place, among_append, among_append, among_cons, single]
    tauto
  | cons r below ih =>
    have proper : r.low ≤ r.high := separated.right.nonempty r (by simp)
    have rest : Separated ([r] ++ below) := separated.right
    have lower : ∀ low ∈ below, low.high + 2 ≤ r.low := fun low member => rest.cross (by simp) member
    -- a range in the place of `r`, with the number and those of `r`
    have widened (range : PacketRange) (order : range.low ≤ range.high)
        (beyond : ∀ high ∈ above.reverse, range.high + 2 ≤ high.low)
        (under : ∀ low ∈ below, low.high + 2 ≤ range.low)
        (same : ∀ x, range.low ≤ x ∧ x ≤ range.high ↔ (r.low ≤ x ∧ x ≤ r.high) ∨ x = n) :
        Separated (above.reverse ++ range :: below) ∧
          ∀ x, Among x (above.reverse ++ range :: below) ↔ Among x (above.reverse ++ r :: below) ∨ x = n := by
      refine ⟨separated.left.between rest.right order beyond under, fun x => ?_⟩
      rw [among_append, among_append, among_cons, among_cons, same]
      tauto
    rw [place.eq_def]
    dsimp only
    split_ifs with inside next before past
    · rw [PacketRange.contains_iff] at inside
      refine ⟨separated, fun x => ⟨.inl, fun either => either.elim id fun here => ?_⟩⟩
      exact ⟨r, by simp, by omega⟩
    · have wider := widened ⟨r.low, n⟩ (by simp; omega) clear lower fun x => by simp; omega
      cases above with
      | nil => exact wider
      | cons near far =>
        have gap := passed near (by simp)
        dsimp only
        rw [if_neg (by omega)]
        exact wider
    · have beyond : ∀ high ∈ above.reverse, r.high + 2 ≤ high.low := fun high member => separated.cross member (by simp)
      cases below with
      | nil => exact widened ⟨n, r.high⟩ (by simp; omega) beyond (by simp) fun x => by simp; omega
      | cons near far =>
        have tail : Separated ([near] ++ far) := rest.right
        have nearProper : near.low ≤ near.high := tail.nonempty near (by simp)
        have gap := lower near (by simp)
        dsimp only
        split_ifs with closed
        · have under (low : PacketRange) (member : low ∈ far) : low.high + 2 ≤ near.low :=
            tail.cross (mem_singleton_self near) member
          refine ⟨separated.left.between tail.right (by simp; omega) beyond under, fun x => ?_⟩
          have joined : near.low ≤ x ∧ x ≤ r.high ↔
              (r.low ≤ x ∧ x ≤ r.high) ∨ (near.low ≤ x ∧ x ≤ near.high) ∨ x = n := by omega
          rw [among_append, among_append, among_cons, among_cons, among_cons, joined]
          tauto
        · refine widened ⟨n, r.high⟩ (by simp; omega) beyond ?_ fun x => by simp; omega
          intro low member
          rcases mem_cons.mp member with rfl | further
          · simp
            omega
          have below := tail.cross (mem_singleton_self near) further
          simp
          omega
    · refine ⟨separated.left.between separated.right le_rfl clear ?_, fun x => ?_⟩
      · intro low member
        rcases mem_cons.mp member with rfl | further
        · simp
          omega
        have gap := lower low further
        simp
        omega
      · have single : n ≤ x ∧ x ≤ n ↔ x = n := by omega
        rw [among_append, among_append, among_cons x ⟨n, n⟩, single]
        tauto
    · have outside : n + 2 ≤ r.low := by
        rw [PacketRange.contains_iff] at inside
        omega
      have further : ∀ range ∈ r :: above, n + 2 ≤ range.low := by simpa using ⟨outside, passed⟩
      have whole : (r :: above).reverse ++ below = above.reverse ++ r :: below := by simp
      rw [← whole] at separated ⊢
      exact ih (r :: above) further separated fun range member => further range (mem_reverse.mp member)

theorem place_cases (n : Nat) (above below : List PacketRange) (passed : ∀ range ∈ above, n ≤ range.high) :
    (∃ result, place n above below = (result, false) ∧ result.length ≤ (above.reverse ++ below).length) ∨
      ∃ upper lower, place n above below = (upper ++ ⟨n, n⟩ :: lower, true) ∧ above.reverse ++ below = upper ++ lower ∧
        ∀ range ∈ upper, n ≤ range.high := by
  have higher : ∀ range ∈ above.reverse, n ≤ range.high := by simpa using passed
  induction below generalizing above with
  | nil => exact .inr ⟨above.reverse, [], rfl, rfl, higher⟩
  | cons r below ih =>
    rw [place.eq_def]
    dsimp only
    split_ifs with inside next before past
    · exact .inl ⟨_, rfl, le_rfl⟩
    · cases above with
      | nil => exact .inl ⟨_, rfl, le_rfl⟩
      | cons near far =>
        dsimp only
        split_ifs <;> exact .inl ⟨_, rfl, by simp⟩
    · cases below with
      | nil => exact .inl ⟨_, rfl, by simp⟩
      | cons near far =>
        dsimp only
        split_ifs <;> exact .inl ⟨_, rfl, by simp⟩
    · exact .inr ⟨above.reverse, r :: below, rfl, rfl, higher⟩
    · have further : ∀ range ∈ r :: above, n ≤ range.high := by simpa using ⟨not_lt.mp past, passed⟩
      have whole : (r :: above).reverse ++ below = above.reverse ++ r :: below := by simp
      rw [← whole]
      exact ih (r :: above) further fun range member => further range (mem_reverse.mp member)

/-- The ranges beyond the maximum, which `add` drops. -/
def dropped (acks : QUICAckRanges) (n : Nat) : List PacketRange := (place n [] acks.ranges).1.drop acks.maximumRanges

theorem add_append_dropped (proper : acks.Proper) (n : Nat) :
    (acks.add n).ranges ++ acks.dropped n = (place n [] acks.ranges).1 ∧
      (acks.add n).ranges.length ≤ acks.maximumRanges := by
  unfold add dropped
  rcases place_cases n [] acks.ranges (by simp) with ⟨result, placed, shorter⟩ | ⟨upper, lower, placed, -, -⟩
  · have few : result.length ≤ acks.maximumRanges := le_trans shorter proper.bounded
    simp [placed, few]
  · simp only [placed, if_true]
    exact ⟨take_append_drop _ _, length_take_le _ _⟩

theorem add_exact (proper : acks.Proper) (n : Nat) : Separated ((acks.add n).ranges ++ acks.dropped n) ∧
    ∀ x, Among x (acks.add n).ranges ↔ (Among x acks.ranges ∨ x = n) ∧ ¬ Among x (acks.dropped n) := by
  obtain ⟨apart, exact_⟩ := place_exact n [] acks.ranges (by simp) proper.separated
  rw [← (add_append_dropped proper n).1] at apart exact_
  refine ⟨apart, fun x => ?_⟩
  have both := exact_ x
  rw [reverse_nil, nil_append, among_append] at both
  rw [← both]
  constructor
  · rintro ⟨kept, member, within⟩
    refine ⟨.inl ⟨kept, member, within⟩, ?_⟩
    rintro ⟨lost, last, other⟩
    have gap := apart.cross member last
    omega
  · tauto

@[simp] theorem maximumRanges_add (acks : QUICAckRanges) (n : Nat) :
    (acks.add n).maximumRanges = acks.maximumRanges := by
  unfold add
  dsimp only
  split_ifs <;> rfl

theorem Proper.add (proper : acks.Proper) (n : Nat) : (acks.add n).Proper where
  bounded := by
    rw [maximumRanges_add]
    exact (add_append_dropped proper n).2
  separated := (add_exact proper n).1.left

/-- There is room for another range, or the packet number is above the oldest one. -/
def Retains (acks : QUICAckRanges) (packetNumber : Nat) : Prop :=
  acks.ranges.length < acks.maximumRanges ∨ ∃ oldest ∈ acks.ranges.getLast?, oldest.high < packetNumber

instance (acks : QUICAckRanges) : DecidablePred acks.Retains :=
  fun _ => inferInstanceAs (Decidable (_ ∨ _))

theorem mem_take_or_getLast {α : Type} {items : List α} {count : Nat} {item : α}
    (length : items.length ≤ count + 1) (member : item ∈ items) :
    item ∈ items.take count ∨ (items.length = count + 1 ∧ items.getLast? = some item) := by
  rw [← take_append_drop count items] at member
  apply (mem_append.mp member).imp_right
  intro late
  have positive := length_pos_of_mem late
  have size : (items.drop count).length = items.length - count := length_drop
  obtain ⟨single, only⟩ := length_eq_one_iff.mp (show (items.drop count).length = 1 by omega)
  rw [only, mem_singleton] at late
  refine ⟨by omega, ?_⟩
  rw [← take_append_drop count items, only, late]
  simp

variable {packetNumber : Nat}

theorem mem_take_of_retains (proper : acks.Proper) {above below : List PacketRange} {added : Nat}
    (split : acks.ranges = above ++ below) (higher : ∀ range ∈ above, added ≤ range.high)
    (retains : acks.Retains packetNumber) {range : PacketRange} (member : range ∈ above ++ ⟨added, added⟩ :: below)
    (within : packetNumber ≤ range.high) :
    range ∈ (above ++ ⟨added, added⟩ :: below).take acks.maximumRanges := by
  have bounded := proper.bounded
  have size : (above ++ ⟨added, added⟩ :: below).length = acks.ranges.length + 1 := by
    simp only [split, length_append, length_cons]
    omega
  apply (mem_take_or_getLast (by omega) member).resolve_right
  rintro ⟨full, pushed⟩
  rcases retains with room | ⟨oldest, last, newer⟩
  · omega
  rw [split] at last
  cases below with
  | nil =>
    -- the new range is the oldest, and the one that goes
    have passed := higher oldest (mem_of_getLast? (by simpa using last))
    simp only [List.getLast?_append, List.getLast?_singleton, Option.some_or, Option.some.injEq] at pushed
    subst pushed
    exact absurd (le_trans within passed) (not_le.mpr newer)
  | cons first rest =>
    simp only [List.getLast?_append_cons, List.getLast?_cons_cons, Option.mem_def] at pushed last
    rw [pushed, Option.some.injEq] at last
    subst last
    omega

theorem contains_add (proper : acks.Proper) {added : Nat}
    (known : acks.contains packetNumber = true ∨ packetNumber = added) (retains : acks.Retains packetNumber) :
    (acks.add added).contains packetNumber = true := by
  rw [contains_iff] at known ⊢
  obtain ⟨range, member, low, high⟩ :=
    (place_exact added [] acks.ranges (by simp) proper.separated).2 packetNumber |>.mpr known
  unfold QUICAckRanges.add
  rcases place_cases added [] acks.ranges (by simp) with ⟨result, placed, -⟩ | ⟨upper, lower, placed, split, higher⟩
  · simp only [placed] at member ⊢
    exact ⟨range, member, low, high⟩
  · simp only [placed, if_true] at member ⊢
    exact ⟨range, mem_take_of_retains proper split higher retains member high, low, high⟩

theorem length_trim_le (covered : Nat) (ranges : List PacketRange) : (trim covered ranges).length ≤ ranges.length := by
  induction ranges with
  | nil => exact le_rfl
  | cons last rest ih =>
    rw [trim]
    split_ifs
    · exact le_trans ih (Nat.le_succ _)
    · exact le_rfl
    · exact le_rfl

theorem trim_exact (n : Nat) (ranges : List PacketRange)
    (apart : ranges.Pairwise fun lower upper => lower.high + 2 ≤ upper.low)
    (nonempty : ∀ range ∈ ranges, range.low ≤ range.high) :
    (trim n ranges).Pairwise (fun lower upper => lower.high + 2 ≤ upper.low) ∧
      (∀ range ∈ trim n ranges, range.low ≤ range.high) ∧
      ∀ x, Among x (trim n ranges) ↔ Among x ranges ∧ n < x := by
  induction ranges with
  | nil => simp [trim, Among]
  | cons last rest ih =>
    obtain ⟨beyond, later⟩ := pairwise_cons.mp apart
    have others := fun range member => nonempty range (mem_cons_of_mem last member)
    have above (x : Nat) (here : Among x rest) : last.high + 2 ≤ x := by
      obtain ⟨range, member, within⟩ := here
      have gap := beyond range member
      omega
    unfold trim
    split_ifs with gone cut
    · obtain ⟨kept, proper, exact_⟩ := ih later others
      refine ⟨kept, proper, fun x => ?_⟩
      rw [exact_, among_cons]
      constructor
      · tauto
      · rintro ⟨within | here, past⟩
        · omega
        · exact ⟨here, past⟩
    · refine ⟨pairwise_cons.mpr ⟨beyond, later⟩, forall_mem_cons.mpr ⟨by simp; omega, others⟩, fun x => ?_⟩
      have further := above x
      rw [among_cons, among_cons]
      by_cases here : Among x rest
      · have past := further here
        simp only [here, or_true, true_and, true_iff]
        omega
      · simp only [here, or_false]
        omega
    · refine ⟨apart, nonempty, fun x => ?_⟩
      have further := above x
      rw [among_cons]
      by_cases here : Among x rest
      · have past := further here
        simp only [here, or_true, true_and, true_iff]
        omega
      · simp only [here, or_false]
        omega

theorem among_reverse (x : Nat) (ranges : List PacketRange) : Among x ranges.reverse ↔ Among x ranges := by
  simp [Among]

theorem removeUpTo_exact (proper : acks.Proper) (n : Nat) :
    Separated (acks.removeUpTo n).ranges ∧ ∀ x, Among x (acks.removeUpTo n).ranges ↔ Among x acks.ranges ∧ n < x := by
  obtain ⟨apart, nonempty, exact_⟩ := trim_exact n acks.ranges.reverse (pairwise_reverse.mpr proper.separated.apart)
    (by simpa using proper.separated.nonempty)
  refine ⟨⟨pairwise_reverse.mpr apart, by simpa [removeUpTo] using nonempty⟩, fun x => ?_⟩
  rw [removeUpTo, among_reverse, exact_, among_reverse]

theorem Proper.removeUpTo (proper : acks.Proper) (covered : Nat) : (acks.removeUpTo covered).Proper where
  bounded := by
    have shorter := length_trim_le covered acks.ranges.reverse
    rw [length_reverse] at shorter
    simpa [QUICAckRanges.removeUpTo] using le_trans shorter proper.bounded
  separated := (removeUpTo_exact proper covered).1

theorem contains_removeUpTo (proper : acks.Proper) {covered : Nat}
    (known : acks.contains packetNumber = true) (above : covered < packetNumber) :
    (acks.removeUpTo covered).contains packetNumber = true := by
  rw [contains_iff] at known ⊢
  exact ((removeUpTo_exact proper covered).2 packetNumber).mpr ⟨known, above⟩

end QUICAckRanges

namespace QUICLossDetection

theorem trimAcks_proper (acked : List QUICSentPacket) {acks : QUICAckRanges} (proper : acks.Proper) :
    (trimAcks acks acked).Proper := by
  induction acked generalizing acks with
  | nil => exact proper
  | cons packet rest ih =>
    apply ih
    dsimp only
    split
    · exact proper.removeUpTo _
    · exact proper

theorem contains_trimAcks (acked : List QUICSentPacket) {acks : QUICAckRanges}
    (proper : acks.Proper) (known : acks.contains packetNumber = true)
    (above : ∀ packet ∈ acked, ∀ covered ∈ packet.largestAcked, covered < packetNumber) :
    (trimAcks acks acked).contains packetNumber = true := by
  induction acked generalizing acks with
  | nil => exact known
  | cons packet rest ih =>
    refine ih (trimAcks_proper [packet] proper) ?_ fun other member => above other (mem_cons_of_mem _ member)
    dsimp only
    split
    next covered carried => exact QUICAckRanges.contains_removeUpTo proper known (above packet mem_cons_self _ carried)
    next => exact known

end QUICLossDetection
end AvianCore.Quic
