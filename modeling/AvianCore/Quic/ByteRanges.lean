import AvianCore.Lib.Bisect
import AvianCore.Quic.Stream

/-!
Byte ranges as sets. On ascending ranges the binary search finds where an operation starts, `add`
is union with an interval and `subtract` is the removal of one.
-/

namespace AvianCore.Quic
open AvianCore.Lib List

def Covers (ranges : List ByteRange) (x : Nat) : Prop := ∃ range ∈ ranges, range.low ≤ x ∧ x < range.high

@[simp] theorem covers_nil (x : Nat) : Covers [] x ↔ False := by simp [Covers]

@[simp] theorem covers_cons (range : ByteRange) (rest : List ByteRange) (x : Nat) :
    Covers (range :: rest) x ↔ (range.low ≤ x ∧ x < range.high) ∨ Covers rest x := by
  simp [Covers]

/-- The ranges lie from `low` on, ascending; none is empty and none touches the next. -/
def Spread : Nat → List ByteRange → Prop
  | _, [] => True
  | low, range :: rest => (low ≤ range.low ∧ range.low < range.high) ∧ Spread (range.high + 1) rest

namespace Spread
variable {low low' : Nat} {ranges : List ByteRange}

theorem mono (spread : Spread low ranges) (lower : low' ≤ low) : Spread low' ranges := by
  cases ranges with
  | nil => trivial
  | cons range rest => exact ⟨⟨lower.trans spread.1.1, spread.1.2⟩, spread.2⟩

theorem later (spread : Spread low ranges) (above : ∀ range ∈ ranges.head?, low' ≤ range.low) : Spread low' ranges := by
  cases ranges with
  | nil => trivial
  | cons range rest => exact ⟨⟨above range rfl, spread.1.2⟩, spread.2⟩

theorem above (spread : Spread low ranges) : ∀ range ∈ ranges, low ≤ range.low := by
  induction ranges generalizing low with
  | nil => simp
  | cons first rest ih =>
    intro range member
    rcases mem_cons.mp member with same | member
    · rw [same]
      exact spread.1.1
    have after := ih spread.2 range member
    have order := spread.1
    omega

theorem proper (spread : Spread low ranges) : ∀ range ∈ ranges, range.low < range.high := by
  induction ranges generalizing low with
  | nil => simp
  | cons first rest ih =>
    intro range member
    rcases mem_cons.mp member with same | member
    · rw [same]
      exact spread.1.2
    · exact ih spread.2 range member

theorem covers_above (spread : Spread low ranges) {x : Nat} (covered : Covers ranges x) : low ≤ x := by
  obtain ⟨range, member, lower, -⟩ := covered
  exact (spread.above range member).trans lower

theorem dropWhile (spread : Spread low ranges) (p : ByteRange → Bool) : Spread low (ranges.dropWhile p) := by
  induction ranges generalizing low with
  | nil => trivial
  | cons first rest ih =>
    by_cases passed : p first = true
    · rw [dropWhile_cons_of_pos passed]
      have order := spread.1
      exact (ih spread.2).mono (by omega)
    · rw [dropWhile_cons_of_neg passed]
      exact spread

theorem ends (spread : Spread low ranges) : ranges.Pairwise fun a b => a.high < b.high := by
  induction ranges generalizing low with
  | nil => exact List.Pairwise.nil
  | cons first rest ih =>
    apply pairwise_cons.mpr
    refine ⟨fun range member => ?_, ih spread.2⟩
    have begins := spread.2.above range member
    have order := spread.2.proper range member
    omega

end Spread

namespace QUICByteRanges
variable {set : QUICByteRanges} {lo low high : Nat}

def Contains (set : QUICByteRanges) (x : Nat) : Prop := Covers set.ranges x

/-- The ranges that a search for `offset` passes over. -/
def passes (offset : Nat) (touching : Bool) (range : ByteRange) : Bool :=
  range.high < offset ∨ (!touching ∧ range.high = offset)

theorem search_eq_bisect (ranges : List ByteRange) (offset : Nat) (touching : Bool)
    (fuel lo hi : Nat) : search ranges offset touching fuel lo hi =
      bisect (fun i => passes offset touching (ranges.getD i ⟨0, 0⟩)) fuel lo hi := by
  induction fuel generalizing lo hi with
  | zero => rfl
  | succ fuel ih =>
    unfold search bisect passes
    simp only [ih, decide_eq_true_eq]
    rfl

theorem firstIndex_eq (spread : Spread lo set.ranges) (offset : Nat) (touching : Bool) :
    set.firstIndex offset touching = (set.ranges.takeWhile (passes offset touching)).length := by
  unfold firstIndex
  rw [search_eq_bisect]
  have reads : ∀ i range, set.ranges[i]? = some range →
      passes offset touching (set.ranges.getD i ⟨0, 0⟩) = passes offset touching range := by
    intro i range found
    rw [getD_eq_getElem?_getD, found]
    rfl
  have sorted : (set.ranges.drop 0).Pairwise fun a b =>
      passes offset touching b = true → passes offset touching a = true := by
    apply spread.ends.imp
    intro a b order
    simp only [passes, decide_eq_true_eq]
    omega
  have found := bisect_eq_takeWhile set.ranges (passes offset touching) _ reads (Nat.zero_le _) sorted (Nat.sub_le _ _)
  rw [found, Nat.zero_add, drop_zero]

theorem firstIndex_split (spread : Spread lo set.ranges) (offset : Nat) (touching : Bool) :
    set.ranges.take (set.firstIndex offset touching) = set.ranges.takeWhile (passes offset touching) ∧
      set.ranges.drop (set.firstIndex offset touching) = set.ranges.dropWhile (passes offset touching) := by
  have whole := takeWhile_append_dropWhile (p := passes offset touching) (l := set.ranges)
  rw [firstIndex_eq spread]
  constructor
  · nth_rewrite 2 [← whole]
    exact take_left
  · nth_rewrite 2 [← whole]
    exact drop_left

theorem swallow_spec (high : Nat) (ranges : List ByteRange) (spread : Spread lo ranges) :
    high ≤ (swallow high ranges).1 ∧ Spread ((swallow high ranges).1 + 1) (swallow high ranges).2 ∧
      ∀ x, (x < (swallow high ranges).1 ∨ Covers (swallow high ranges).2 x) ↔ (x < high ∨ Covers ranges x) := by
  induction ranges generalizing high lo with
  | nil => exact ⟨le_rfl, trivial, fun _ => Iff.rfl⟩
  | cons range rest ih =>
    unfold swallow
    by_cases reached : range.low ≤ high
    · rw [if_pos reached]
      obtain ⟨grows, apart, same⟩ := ih (max high range.high) spread.2
      refine ⟨(le_max_left _ _).trans grows, apart, fun x => ?_⟩
      rw [same x, covers_cons]
      have proper := spread.1.2
      constructor
      · intro member
        rcases member with short | covered
        · by_cases old : x < high
          · exact .inl old
          · exact .inr (.inl (by omega))
        · exact .inr (.inr covered)
      · intro member
        rcases member with short | inside | covered
        · exact .inl (by omega)
        · exact .inl (by omega)
        · exact .inr covered
    · rw [if_neg reached]
      refine ⟨le_rfl, spread.later ?_, fun _ => Iff.rfl⟩
      intro first found
      cases found
      omega

/-- What `add` does from the first range it does not pass over. -/
def join (low high : Nat) : List ByteRange → List ByteRange
  | [] => [⟨low, high⟩]
  | range :: rest =>
    if high < range.low then ⟨low, high⟩ :: range :: rest
    else ⟨min range.low low, (swallow (max range.high high) rest).1⟩
      :: (swallow (max range.high high) rest).2

variable {ranges : List ByteRange}

theorem join_spec (spread : Spread lo ranges) (proper : low < high) (above : lo ≤ low)
    (touches : ∀ range ∈ ranges.head?, low ≤ range.high) :
    Spread lo (join low high ranges) ∧
      ∀ x, Covers (join low high ranges) x ↔ Covers ranges x ∨ (low ≤ x ∧ x < high) := by
  cases ranges with
  | nil => exact ⟨⟨⟨above, proper⟩, trivial⟩, fun x => by simp [join]⟩
  | cons range rest =>
    have meets : low ≤ range.high := touches range rfl
    have order := spread.1
    by_cases apart : high < range.low
    · rw [join, if_pos apart]
      refine ⟨⟨⟨above, proper⟩, ⟨apart, order.2⟩, spread.2⟩, fun x => ?_⟩
      simp only [covers_cons]
      exact or_comm
    rw [join, if_neg apart]
    obtain ⟨grows, left, same⟩ := swallow_spec (max range.high high) rest spread.2
    have longer : min range.low low < (swallow (max range.high high) rest).1 := by omega
    refine ⟨⟨⟨le_min order.1 above, longer⟩, left⟩, fun x => ?_⟩
    have both := same x
    have beyond : Covers rest x → range.high + 1 ≤ x := spread.2.covers_above
    have behind : Covers (swallow (max range.high high) rest).2 x →
      (swallow (max range.high high) rest).1 + 1 ≤ x := left.covers_above
    simp only [covers_cons]
    constructor
    · intro member
      have reached : x < max range.high high ∨ Covers rest x := both.mp (member.imp_left And.right)
      rcases reached with short | covered
      · by_cases old : range.low ≤ x ∧ x < range.high
        · exact .inl (.inl old)
        rcases member with inside | covered
        · exact .inr (by omega)
        · have past := behind covered
          omega
      · exact .inl (.inr covered)
    · intro member
      have reached : x < max range.high high ∨ Covers rest x := by
        rcases member with (inside | covered) | inside
        · exact .inl (by omega)
        · exact .inr covered
        · exact .inl (by omega)
      rcases both.mpr reached with short | covered
      · apply Or.inl
        refine ⟨?_, short⟩
        rcases member with (inside | covered) | inside
        · omega
        · have past := beyond covered
          omega
        · omega
      · exact .inr covered

theorem spread_passed {p : ByteRange → Bool} (act : List ByteRange → List ByteRange) {bound : Nat}
    (spread : Spread lo ranges) (within : lo ≤ bound) (short : ∀ range, p range = true → range.high < bound)
    (rest : ∀ lo', lo' ≤ bound → Spread lo' (ranges.dropWhile p) → Spread lo' (act (ranges.dropWhile p))) :
    Spread lo (ranges.takeWhile p ++ act (ranges.dropWhile p)) := by
  induction ranges generalizing lo with
  | nil => exact rest lo within spread
  | cons range others ih =>
    by_cases passed : p range = true
    · rw [dropWhile_cons_of_pos passed] at rest ⊢
      rw [takeWhile_cons_of_pos passed]
      exact ⟨spread.1, ih spread.2 (short range passed) rest⟩
    · rw [dropWhile_cons_of_neg passed] at rest ⊢
      rw [takeWhile_cons_of_neg passed]
      exact rest lo within spread

theorem covers_append (first second : List ByteRange) (x : Nat) :
    Covers (first ++ second) x ↔ Covers first x ∨ Covers second x := by
  simp only [Covers, mem_append, or_and_right, exists_or]

theorem not_passes_head (p : ByteRange → Bool) (ranges : List ByteRange) :
    ∀ range ∈ (ranges.dropWhile p).head?, p range = false := by
  intro range found
  have stop := List.head?_dropWhile_not p ranges
  rw [Option.mem_def.mp found] at stop
  simpa using stop

theorem add_eq (spread : Spread lo set.ranges) (proper : low < high) :
    (set.add low high).ranges = set.ranges.takeWhile (passes low true) ++
      join low high (set.ranges.dropWhile (passes low true)) := by
  obtain ⟨before, after⟩ := firstIndex_split spread low true
  unfold add
  rw [if_neg (not_le.mpr proper)]
  simp only [before, after]
  cases set.ranges.dropWhile (passes low true) with
  | nil => rfl
  | cons range rest =>
    unfold join
    simp only
    split_ifs <;> rfl

theorem add_spread (spread : Spread 0 set.ranges) (low high : Nat) : Spread 0 (set.add low high).ranges := by
  by_cases proper : low < high
  · rw [add_eq spread proper]
    apply spread_passed (join low high) spread (Nat.zero_le low)
    · intro range passed
      simpa [passes] using passed
    · intro lo' above rest
      apply (join_spec rest proper above _).1
      intro range found
      simpa [passes] using not_passes_head _ _ range found
  · unfold add
    rw [if_pos (not_lt.mp proper)]
    exact spread

theorem contains_add (spread : Spread 0 set.ranges) (low high x : Nat) :
    (set.add low high).Contains x ↔ set.Contains x ∨ (low ≤ x ∧ x < high) := by
  unfold Contains
  by_cases proper : low < high
  · have whole := takeWhile_append_dropWhile (p := passes low true) (l := set.ranges)
    have touches : ∀ range ∈ (set.ranges.dropWhile (passes low true)).head?, low ≤ range.high := by
      intro range found
      simpa [passes] using not_passes_head _ _ range found
    have joined := join_spec (spread.dropWhile (passes low true)) proper (Nat.zero_le low) touches
    rw [add_eq spread proper, covers_append, joined.2 x, ← or_assoc, ← covers_append, whole]
  unfold add
  rw [if_pos (not_lt.mp proper)]
  have empty : ¬(low ≤ x ∧ x < high) := by omega
  simp [empty]

theorem cut_spec (spread : Spread lo ranges) (proper : low < high) (reaches : ∀ range ∈ ranges, low < range.high) :
    Spread lo (cut low high ranges) ∧
      ∀ x, Covers (cut low high ranges) x ↔ Covers ranges x ∧ ¬(low ≤ x ∧ x < high) := by
  induction ranges generalizing lo with
  | nil => exact ⟨trivial, fun x => by simp [cut]⟩
  | cons range rest ih =>
    obtain ⟨order, later⟩ := spread
    have reached := reaches range mem_cons_self
    have beyond : ∀ x, Covers rest x → range.high + 1 ≤ x := fun x => later.covers_above
    obtain ⟨cutSpread, cutSame⟩ := ih later fun other member => reaches other (mem_cons_of_mem _ member)
    unfold cut
    split_ifs with after inside left right
    · refine ⟨⟨order, later⟩, fun x => ?_⟩
      have past := beyond x
      simp only [covers_cons]
      constructor
      · intro member
        refine ⟨member, fun removed => ?_⟩
        rcases member with here | covered
        · omega
        · have far := past covered
          omega
      · exact And.left
    · refine ⟨⟨⟨order.1, inside.1⟩, ⟨Nat.succ_le_of_lt proper, inside.2⟩, later⟩, fun x => ?_⟩
      have past := beyond x
      simp only [covers_cons]
      constructor
      · intro member
        rcases member with here | here | covered
        · exact ⟨.inl (by omega), by omega⟩
        · exact ⟨.inl (by omega), by omega⟩
        · have far := past covered
          exact ⟨.inr covered, by omega⟩
      · intro member
        rcases member with ⟨here | covered, kept⟩
        · by_cases below : x < low
          · exact .inl ⟨here.1, below⟩
          · exact .inr (.inl (by omega))
        · exact .inr (.inr covered)
    · have apart : Spread (low + 1) (cut low high rest) := cutSpread.mono (by omega)
      refine ⟨⟨⟨order.1, left⟩, apart⟩, fun x => ?_⟩
      simp only [covers_cons, cutSame x]
      constructor
      · intro member
        rcases member with here | ⟨covered, kept⟩
        · exact ⟨.inl (by omega), by omega⟩
        · exact ⟨.inr covered, kept⟩
      · intro member
        rcases member with ⟨here | covered, kept⟩
        · exact .inl (by omega)
        · exact .inr ⟨covered, kept⟩
    · have start : lo ≤ high := by omega
      refine ⟨⟨⟨start, right⟩, later⟩, fun x => ?_⟩
      have past := beyond x
      simp only [covers_cons]
      constructor
      · intro member
        rcases member with here | covered
        · exact ⟨.inl (by omega), by omega⟩
        · have far := past covered
          exact ⟨.inr covered, by omega⟩
      · intro member
        rcases member with ⟨here | covered, kept⟩
        · exact .inl (by omega)
        · exact .inr covered
    · refine ⟨cutSpread.mono (by omega), fun x => ?_⟩
      simp only [covers_cons, cutSame x]
      constructor
      · intro member
        exact ⟨.inr member.1, member.2⟩
      · intro member
        rcases member with ⟨here | covered, kept⟩
        · omega
        · exact ⟨covered, kept⟩

theorem subtract_eq (spread : Spread lo set.ranges) (proper : low < high) :
    (set.subtract low high).ranges = set.ranges.takeWhile (passes low false) ++
      cut low high (set.ranges.dropWhile (passes low false)) := by
  obtain ⟨before, after⟩ := firstIndex_split spread low false
  unfold subtract
  rw [if_neg (not_le.mpr proper)]
  simp only [before, after]

theorem dropWhile_reaches (spread : Spread lo set.ranges) (low : Nat) :
    ∀ range ∈ set.ranges.dropWhile (passes low false), low < range.high := by
  have ends := (spread.dropWhile (passes low false)).ends
  have first := not_passes_head (passes low false) set.ranges
  generalize set.ranges.dropWhile (passes low false) = others at ends first
  cases others with
  | nil => simp
  | cons range rest =>
    have reached : low < range.high := by
      have stop := first range rfl
      simp only [passes, decide_eq_false_iff_not] at stop
      simp at stop
      omega
    intro other member
    rcases mem_cons.mp member with same | member
    · rw [same]
      exact reached
    · exact reached.trans ((pairwise_cons.mp ends).1 other member)

theorem subtract_spread (spread : Spread 0 set.ranges) (low high : Nat) : Spread 0 (set.subtract low high).ranges := by
  by_cases proper : low < high
  · rw [subtract_eq spread proper]
    apply spread_passed (cut low high) spread (Nat.zero_le (low + 1))
    · intro range passed
      simp [passes] at passed
      omega
    · intro lo' above rest
      exact (cut_spec rest proper (dropWhile_reaches spread low)).1
  · unfold subtract
    rw [if_pos (not_lt.mp proper)]
    exact spread

theorem contains_subtract (spread : Spread 0 set.ranges) (low high x : Nat) :
    (set.subtract low high).Contains x ↔ set.Contains x ∧ ¬(low ≤ x ∧ x < high) := by
  unfold Contains
  by_cases proper : low < high
  · have whole := takeWhile_append_dropWhile (p := passes low false) (l := set.ranges)
    have removed := cut_spec (spread.dropWhile (passes low false)) proper (dropWhile_reaches spread low)
    have before : Covers (set.ranges.takeWhile (passes low false)) x → ¬(low ≤ x ∧ x < high) := by
      intro covered inside
      obtain ⟨range, member, here⟩ := covered
      have passed := mem_takeWhile_imp member
      simp [passes] at passed
      omega
    rw [subtract_eq spread proper, covers_append, removed.2 x]
    nth_rewrite 3 [← whole]
    rw [covers_append]
    constructor
    · intro member
      rcases member with early | ⟨late, kept⟩
      · exact ⟨.inl early, before early⟩
      · exact ⟨.inr late, kept⟩
    · intro member
      rcases member with ⟨early | late, kept⟩
      · exact .inl early
      · exact .inr ⟨late, kept⟩
  · unfold subtract
    rw [if_pos (not_lt.mp proper)]
    have empty : ¬(low ≤ x ∧ x < high) := by omega
    simp [empty]

theorem contains_of_lt_contiguousEnd {base x : Nat} (above : base ≤ x)
    (below : x < set.contiguousEnd base) : set.Contains x := by
  unfold contiguousEnd at below
  split at below
  · omega
  next first rest found =>
    split_ifs at below with reaches
    · refine ⟨first, by rw [found]; exact mem_cons_self, ?_⟩
      omega
    · omega

/-- The loop of `removeBelow`, and what it does to the first range that stays. -/
def trim (offset : Nat) : List ByteRange → List ByteRange
  | [] => []
  | first :: rest =>
    if first.high ≤ offset then trim offset rest
    else (if first.low < offset then ⟨offset, first.high⟩ else first) :: rest

def removeBelow (set : QUICByteRanges) (offset : Nat) : QUICByteRanges := ⟨trim offset set.ranges⟩

theorem trim_spec (spread : Spread lo ranges) (offset : Nat) :
    Spread lo (trim offset ranges) ∧ ∀ x, Covers (trim offset ranges) x ↔ Covers ranges x ∧ offset ≤ x := by
  induction ranges generalizing lo with
  | nil => exact ⟨trivial, by simp [trim]⟩
  | cons first rest ih =>
    obtain ⟨order, later⟩ := spread
    unfold trim
    split_ifs with passed reaches
    · obtain ⟨kept, same⟩ := ih later
      refine ⟨kept.mono (by omega), fun x => ?_⟩
      rw [same, covers_cons]
      constructor
      · exact And.imp_left Or.inr
      · rintro ⟨here | covered, above⟩
        · omega
        · exact ⟨covered, above⟩
    all_goals
      refine ⟨⟨by grind, later⟩, fun x => ?_⟩
      have beyond : Covers rest x → first.high + 1 ≤ x := later.covers_above
      simp only [covers_cons]
      constructor
      · rintro (here | covered)
        · exact ⟨.inl (by omega), by omega⟩
        · have far := beyond covered
          exact ⟨.inr covered, by omega⟩
      · rintro ⟨here | covered, above⟩
        · exact .inl (by omega)
        · exact .inr covered

inductive Call
  | add (low high : Nat)
  | subtract (low high : Nat)
  | removeBelow (offset : Nat)

def apply (set : QUICByteRanges) : Call → QUICByteRanges
  | .add low high => set.add low high
  | .subtract low high => set.subtract low high
  | .removeBelow offset => set.removeBelow offset

def Call.act (offsets : Set Nat) : Call → Set Nat
  | .add low high => offsets ∪ Set.Ico low high
  | .subtract low high => offsets \ Set.Ico low high
  | .removeBelow offset => offsets \ Set.Iio offset

theorem apply_spec (spread : Spread 0 set.ranges) (call : Call) :
    Spread 0 (set.apply call).ranges ∧ {x | (set.apply call).Contains x} = Call.act {x | set.Contains x} call := by
  cases call with
  | add low high => exact ⟨add_spread spread low high, Set.ext (contains_add spread low high)⟩
  | subtract low high => exact ⟨subtract_spread spread low high, Set.ext (contains_subtract spread low high)⟩
  | removeBelow offset =>
    obtain ⟨later, same⟩ := trim_spec spread offset
    refine ⟨later, Set.ext fun x => (same x).trans ?_⟩
    simp [Call.act, Contains]

theorem foldl_apply_spec (spread : Spread 0 set.ranges) (calls : List Call) : Spread 0 (calls.foldl apply set).ranges ∧
    {x | (calls.foldl apply set).Contains x} = calls.foldl Call.act {x | set.Contains x} := by
  induction calls generalizing set with
  | nil => exact ⟨spread, rfl⟩
  | cons call calls ih =>
    obtain ⟨next, same⟩ := apply_spec spread call
    rw [foldl_cons, foldl_cons, ← same]
    exact ih next

/-- After any calls the ranges ascend, none empty and none touching the next, and hold exactly the offsets that the
calls come to; the search finds the first range that ends behind an offset, or at it. -/
theorem ranges_exact (calls : List Call) : ∃ set : QUICByteRanges, set = calls.foldl apply { } ∧
    Spread 0 set.ranges ∧ {x | set.Contains x} = calls.foldl Call.act ∅ ∧
    ∀ offset touching, set.firstIndex offset touching =
      set.ranges.findIdx fun range => if touching then offset ≤ range.high else offset < range.high := by
  obtain ⟨spread, same⟩ := foldl_apply_spec (show Spread 0 ({ } : QUICByteRanges).ranges from trivial) calls
  have none : {x | Contains { } x} = ∅ := by simp [Contains]
  rw [none] at same
  refine ⟨_, rfl, spread, same, fun offset touching => ?_⟩
  rw [firstIndex_eq spread, List.takeWhile_eq_take_findIdx_not, List.length_take, min_eq_left List.findIdx_le_length]
  congr 1
  funext range
  rw [Bool.eq_iff_iff]
  cases touching <;> simp [passes]
  omega

end QUICByteRanges
end AvianCore.Quic
