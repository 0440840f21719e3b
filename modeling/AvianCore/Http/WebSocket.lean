import AvianCore.Http.Bytes
import AvianCore.Lib.Utf8

/-!
WebSocket frames (`WebSocketFrame.swift`): the header of a frame, the frames that the server writes, and the validator
that text goes through byte by byte.
-/

namespace AvianCore.Http
open AvianCore.Lib List

/-- How many bytes of a sequence are still to come, its bits so far, and the smallest number it may encode. -/
structure UTF8Validator where
  state : Nat := 0
  codepoint : Nat := 0
  minimum : Nat := 0

namespace UTF8Validator

def isComplete (v : UTF8Validator) : Bool := v.state = 0

/-- One pass through the loop of `feed`, and whether it goes on. -/
def step (v : UTF8Validator) (c : UInt8) : UTF8Validator × Bool :=
  if v.state = 0 then
    if c < 0x80 then (v, true)
    else if 0xC2 ≤ c ∧ c ≤ 0xDF then (⟨1, (c &&& 0x1F).toNat, 0x80⟩, true)
    else if 0xE0 ≤ c ∧ c ≤ 0xEF then (⟨2, (c &&& 0x0F).toNat, 0x800⟩, true)
    else if 0xF0 ≤ c ∧ c ≤ 0xF4 then (⟨3, (c &&& 0x07).toNat, 0x10000⟩, true)
    else (v, false)
  else if c &&& 0xC0 ≠ 0x80 then (v, false)
  else
    let v := { v with codepoint := v.codepoint <<< 6 ||| (c &&& 0x3F).toNat, state := v.state - 1 }
    (v, ¬(v.state = 0 ∧ (v.codepoint > 0x10FFFF ∨ (v.codepoint ≥ 0xD800 ∧ v.codepoint ≤ 0xDFFF) ∨
      v.codepoint < v.minimum)))

def feed (v : UTF8Validator) : Bytes → UTF8Validator × Bool
  | [] => (v, true)
  | c :: rest => if (v.step c).2 then (v.step c).1.feed rest else ((v.step c).1, false)

def feedAll (v : UTF8Validator) : List Bytes → UTF8Validator × Bool
  | [] => (v, true)
  | piece :: rest => if (v.feed piece).2 then (v.feed piece).1.feedAll rest else ((v.feed piece).1, false)

variable {v : UTF8Validator} {front : Bytes}

theorem feed_append (v : UTF8Validator) (front back : Bytes) : v.feed (front ++ back) =
    if (v.feed front).2 then (v.feed front).1.feed back else ((v.feed front).1, false) := by
  induction front generalizing v with
  | nil => simp [feed]
  | cons c rest ih =>
    simp only [cons_append, feed]
    by_cases goes : (v.step c).2 = true
    · simp only [if_pos goes, ih]
    · simp only [if_neg goes, Bool.false_eq_true, if_false]

theorem feed_append_of (passes : (v.feed front).2 = true) (back : Bytes) :
    v.feed (front ++ back) = (v.feed front).1.feed back := by
  rw [feed_append, if_pos passes]

theorem feedAll_eq (v : UTF8Validator) (pieces : List Bytes) : v.feedAll pieces = v.feed pieces.flatten := by
  induction pieces generalizing v with
  | nil => rfl
  | cons piece rest ih => rw [flatten_cons, feed_append, feedAll, ih]

/-! A sequence of so many more bytes: what is added to its first byte, the bits that may be there, and the smallest
number. -/

def base (more : Nat) : Nat := if more = 1 then 0xC0 else if more = 2 then 0xE0 else 0xF0

def least (more : Nat) : Nat := if more = 1 then 0x80 else if more = 2 then 0x800 else 0x10000

def Leads (more high : Nat) : Prop := (more = 1 ∧ 2 ≤ high ∧ high < 32) ∨ (more = 2 ∧ high < 16) ∨ (more = 3 ∧ high < 5)

theorem toNat_mask (c : UInt8) : (c &&& 0x1F).toNat = c.toNat % 32 ∧ (c &&& 0x0F).toNat = c.toNat % 16 ∧
    (c &&& 0x07).toNat = c.toNat % 8 ∧ (c &&& 0x3F).toNat = c.toNat % 64 ∧
    (c &&& 0xC0 = 0x80 ↔ 0x80 ≤ c.toNat ∧ c.toNat < 0xC0) := by
  have all : ∀ n < 256, (UInt8.ofNat n &&& 0x1F).toNat = n % 32 ∧ (UInt8.ofNat n &&& 0x0F).toNat = n % 16 ∧
      (UInt8.ofNat n &&& 0x07).toNat = n % 8 ∧ (UInt8.ofNat n &&& 0x3F).toNat = n % 64 ∧
      (UInt8.ofNat n &&& 0xC0 = 0x80 ↔ 0x80 ≤ n ∧ n < 0xC0) := by
    decide +kernel
  have here := all c.toNat c.toNat_lt
  rwa [UInt8.ofNat_toNat] at here

theorem step_lead (complete : v.state = 0) {more high : Nat} (leads : Leads more high) :
    v.step (UInt8.ofNat (base more + high)) = (⟨more, high, least more⟩, true) := by
  have value : (UInt8.ofNat (base more + high)).toNat = base more + high := by
    apply UInt8.toNat_ofNat_of_lt'
    unfold Leads at leads
    unfold base
    grind
  generalize UInt8.ofNat (base more + high) = c at value
  obtain ⟨five, four, three, -⟩ := toNat_mask c
  unfold step
  simp only [complete, five, four, three, UInt8.lt_iff_toNat_lt, UInt8.le_iff_toNat_le, UInt8.reduceToNat]
  unfold Leads at leads
  unfold base at value
  unfold least
  grind

theorem step_six (pending : 0 < v.state) {six : Nat} (small : six < 64) :
    v.step (UInt8.ofNat (0x80 + six)) = (⟨v.state - 1, v.codepoint * 64 + six, v.minimum⟩,
      decide (v.state = 1 → v.codepoint * 64 + six ≤ 0x10FFFF ∧
        (v.codepoint * 64 + six < 0xD800 ∨ 0xDFFF < v.codepoint * 64 + six) ∧ v.minimum ≤ v.codepoint * 64 + six)) := by
  have value : (UInt8.ofNat (0x80 + six)).toNat = 0x80 + six := UInt8.toNat_ofNat_of_lt' (show _ < 256 by omega)
  generalize UInt8.ofNat (0x80 + six) = c at value
  obtain ⟨-, -, -, six', top⟩ := toNat_mask c
  have low : c.toNat % 64 = six := by omega
  rw [low] at six'
  have joined : v.codepoint <<< 6 ||| six = v.codepoint * 64 + six := by
    rw [← Nat.shiftLeft_add_eq_or_of_lt small, Nat.shiftLeft_eq]
  unfold step
  rw [if_neg (by omega), if_neg (by rw [not_not, top]; omega)]
  simp only [six', joined, Prod.mk.injEq, true_and, decide_eq_decide]
  omega

theorem step_cases {c : UInt8} (goes : (v.step c).2 = true) : (v.state = 0 ∧ c.toNat < 0x80 ∧ (v.step c).1 = v) ∨
    (v.state = 0 ∧ ∃ more high, Leads more high ∧ c = UInt8.ofNat (base more + high)) ∨
    (0 < v.state ∧ ∃ six < 64, c = UInt8.ofNat (0x80 + six)) := by
  obtain ⟨-, -, -, -, top⟩ := toNat_mask c
  have self : ∀ n, n = c.toNat → c = UInt8.ofNat n := by
    intro n same
    rw [same, UInt8.ofNat_toNat]
  unfold step at goes ⊢
  simp only [UInt8.lt_iff_toNat_lt, UInt8.le_iff_toNat_le, UInt8.reduceToNat] at goes ⊢
  split_ifs at goes with complete plain two three four six
  · exact .inl ⟨complete, plain, by simp [complete, plain]⟩
  · exact .inr (.inl ⟨complete, 1, c.toNat - 0xC0, .inl ⟨rfl, by omega, by omega⟩, self _ (by simp [base]; omega)⟩)
  · exact .inr (.inl ⟨complete, 2, c.toNat - 0xE0, .inr (.inl ⟨rfl, by omega⟩), self _ (by simp [base]; omega)⟩)
  · exact .inr (.inl ⟨complete, 3, c.toNat - 0xF0, .inr (.inr ⟨rfl, by omega⟩), self _ (by simp [base]; omega)⟩)
  · rw [not_not, top] at six
    exact .inr (.inr ⟨by omega, c.toNat - 0x80, by omega, self _ (by omega)⟩)

/-- The bytes that are read of a sequence that is not at its end. -/
inductive Pending (v : UTF8Validator) : Bytes → Prop
  | none (complete : v.state = 0) : Pending v []
  | some (more read : Nat) (left : v.state + read = more) (pending : 0 < v.state) (minimum : v.minimum = least more)
    (leads : Leads more (v.codepoint / 64 ^ read)) : Pending v (sixes (base more) read v.codepoint)

theorem utf8_eq {c : Char} {more : Nat} (leads : Leads more (c.toNat / 64 ^ more)) (enough : least more ≤ c.toNat) :
    utf8 c = sixes (base more) more c.toNat := by
  unfold utf8
  rcases leads with ⟨rfl, low, high⟩ | ⟨rfl, high⟩ | ⟨rfl, high⟩ <;> simp only [least] at enough <;> norm_num at enough high
  · rw [if_neg (by omega), if_pos (by omega)]
    rfl
  · rw [if_neg (by omega), if_neg (by omega), if_pos (by omega)]
    rfl
  · rw [if_neg (by omega), if_neg (by omega), if_neg (by omega)]
    rfl

theorem exists_leads (c : Char) (long : 0x80 ≤ c.toNat) :
    ∃ more, Leads (more + 1) (c.toNat / 64 ^ (more + 1)) ∧ least (more + 1) ≤ c.toNat := by
  have valid := (char_valid c).1
  unfold Leads least
  by_cases two : c.toNat < 0x800
  · exact ⟨0, by norm_num; omega, by norm_num; omega⟩
  by_cases three : c.toNat < 0x10000
  · exact ⟨1, by norm_num; omega, by norm_num; omega⟩
  · exact ⟨2, by norm_num; omega, by norm_num; omega⟩

theorem sixes_snoc (base more n : Nat) {six : Nat} (small : six < 64) :
    sixes base (more + 1) (n * 64 + six) = sixes base more n ++ [UInt8.ofNat (0x80 + six)] := by
  rw [sixes, show (n * 64 + six) / 64 = n by omega, show (n * 64 + six) % 64 = six by omega]

theorem Pending.step {tail : Bytes} (pending : v.Pending tail) {c : UInt8} (goes : (v.step c).2 = true) :
    ∃ front tail', tail ++ [c] = front ++ tail' ∧ WellFormed front ∧ (v.step c).1.Pending tail' := by
  cases pending with
  | none complete =>
    rcases step_cases goes with ⟨-, plain, same⟩ | ⟨-, more, high, leads, rfl⟩ | ⟨pending, -⟩
    · obtain ⟨character, number⟩ := exists_char (n := c.toNat) (by omega) (by omega)
      rw [same]
      refine ⟨utf8 character, [], ?_, .single character, .none complete⟩
      simp [utf8, sixes, number, plain]
    · rw [step_lead complete leads]
      refine ⟨[], _, rfl, .nil, .some more 0 rfl ?_ rfl (by simpa using leads)⟩
      unfold Leads at leads
      show 0 < more
      omega
    · omega
  | some more read left pending minimum leads =>
    rcases step_cases goes with ⟨complete, -⟩ | ⟨complete, -⟩ | ⟨-, six, small, rfl⟩
    · omega
    · omega
    rw [step_six pending small] at goes ⊢
    have further : Leads more ((v.codepoint * 64 + six) / 64 ^ (read + 1)) := by
      rw [Nat.pow_succ', ← Nat.div_div_eq_div_mul, show (v.codepoint * 64 + six) / 64 = v.codepoint by omega]
      exact leads
    rw [← sixes_snoc _ _ _ small]
    by_cases last : v.state = 1
    · obtain ⟨most, apart, enough⟩ := of_decide_eq_true goes last
      obtain ⟨character, number⟩ := exists_char most apart
      rw [minimum, ← number] at enough
      rw [← number] at further ⊢
      rw [show read + 1 = more by omega] at further ⊢
      refine ⟨utf8 character, [], ?_, .single character, .none (by show v.state - 1 = 0; omega)⟩
      rw [utf8_eq further enough, append_nil]
    · refine ⟨[], _, rfl, .nil, .some more (read + 1) ?_ ?_ minimum further⟩
      · show v.state - 1 + (read + 1) = more
        omega
      · show 0 < v.state - 1
        omega

theorem Pending.feed {tail : Bytes} (pending : v.Pending tail) (bytes : Bytes) (goes : (v.feed bytes).2 = true) :
    ∃ front tail', tail ++ bytes = front ++ tail' ∧ WellFormed front ∧ (v.feed bytes).1.Pending tail' := by
  induction bytes generalizing v tail with
  | nil => exact ⟨[], tail, append_nil _, .nil, pending⟩
  | cons c rest ih =>
    unfold UTF8Validator.feed at goes ⊢
    split_ifs at goes ⊢ with first
    obtain ⟨front, tail', split, formed, pending'⟩ := pending.step first
    obtain ⟨front', tail'', split', formed', pending''⟩ := ih pending' goes
    refine ⟨front ++ front', tail'', ?_, formed.append formed', pending''⟩
    rw [append_cons, split, append_assoc, split', append_assoc]

theorem feed_sixes (complete : v.state = 0) {more read n : Nat} (leads : Leads more (n / 64 ^ read))
    (short : read < more) : v.feed (sixes (base more) read n) = (⟨more - read, n, least more⟩, true) := by
  induction read generalizing n with
  | zero =>
    rw [Nat.pow_zero, Nat.div_one] at leads
    simp only [sixes, UTF8Validator.feed, step_lead complete leads, if_true, Nat.sub_zero]
  | succ read ih =>
    rw [Nat.pow_succ', ← Nat.div_div_eq_div_mul] at leads
    have before := ih leads (by omega)
    have small := Nat.mod_lt n (show 0 < 64 by decide)
    rw [sixes, feed_append_of (by rw [before]), before]
    simp only [UTF8Validator.feed]
    rw [step_six (by show 0 < more - read; omega) small]
    have unfinished : more - read ≠ 1 := by omega
    simp [unfinished, Nat.div_add_mod', Nat.sub_sub]

theorem feed_utf8 (complete : v.state = 0) (c : Char) : (v.feed (utf8 c)).2 = true ∧ (v.feed (utf8 c)).1.state = 0 := by
  by_cases plain : c.toNat < 0x80
  · have value : (UInt8.ofNat c.toNat).toNat = c.toNat := UInt8.toNat_ofNat_of_lt' (show _ < 256 by omega)
    simp [utf8, plain, sixes, UTF8Validator.feed, UTF8Validator.step, complete, UInt8.lt_iff_toNat_lt, value]
  obtain ⟨more, leads, enough⟩ := exists_leads c (by omega)
  rw [utf8_eq leads enough, sixes]
  rw [Nat.pow_succ', ← Nat.div_div_eq_div_mul] at leads
  have before := feed_sixes complete leads (Nat.lt_succ_self more)
  have small := Nat.mod_lt c.toNat (show 0 < 64 by decide)
  rw [feed_append_of (by rw [before]), before]
  simp only [UTF8Validator.feed]
  rw [step_six (by show 0 < more + 1 - more; omega) small]
  obtain ⟨most, apart⟩ := char_valid c
  simp [Nat.div_add_mod', most, apart, enough]

theorem feed_wellFormed {bytes : Bytes} (formed : WellFormed bytes) (complete : v.state = 0) :
    (v.feed bytes).2 = true ∧ (v.feed bytes).1.state = 0 := by
  obtain ⟨text, rfl⟩ := formed
  induction text generalizing v with
  | nil => exact ⟨rfl, complete⟩
  | cons c text ih =>
    obtain ⟨goes, after⟩ := feed_utf8 complete c
    rw [flatMap_cons, feed_append_of goes]
    exact ih after

theorem wellFormed_of_feed {bytes : Bytes} (complete : v.state = 0) (goes : (v.feed bytes).2 = true)
    (done : (v.feed bytes).1.state = 0) : WellFormed bytes := by
  obtain ⟨front, tail, split, formed, pending⟩ := Pending.feed (.none complete) bytes goes
  cases pending with
  | none =>
    rw [nil_append, append_nil] at split
    rwa [split]
  | some _ _ _ pending => omega

theorem wellFormed_iff (bytes : Bytes) :
    (feed { } bytes).2 = true ∧ (feed { } bytes).1.isComplete = true ↔ WellFormed bytes := by
  constructor
  · rintro ⟨goes, done⟩
    exact wellFormed_of_feed rfl goes (of_decide_eq_true done)
  · intro formed
    obtain ⟨goes, done⟩ := feed_wellFormed (v := { }) formed rfl
    exact ⟨goes, decide_eq_true done⟩

/-- Text that comes in pieces is accepted to its end exactly if the whole encodes some characters. -/
theorem text_accepted_iff (pieces : List Bytes) : (feedAll { } pieces).2 = true ∧
    (feedAll { } pieces).1.isComplete = true ↔ WellFormed pieces.flatten := by
  rw [feedAll_eq]
  exact wellFormed_iff _

theorem wellFormed_of_append {back : Bytes} (whole : WellFormed (front ++ back)) (first : WellFormed front) :
    WellFormed back := by
  obtain ⟨goes, complete⟩ := feed_wellFormed (v := { }) first rfl
  have all := feed_wellFormed (v := { }) whole rfl
  rw [feed_append_of goes] at all
  exact wellFormed_of_feed complete all.1 all.2

/-- A first and a second byte that no character has: they begin an overlong form, a surrogate or a number too large. -/
def Dead (first second : UInt8) : Prop :=
  first = 0xE0 ∧ second < 0xA0 ∨ first = 0xED ∧ 0xA0 ≤ second ∨ first = 0xF0 ∧ second < 0x90 ∨ first = 0xF4 ∧ 0x90 ≤ second

instance (first second : UInt8) : Decidable (Dead first second) := inferInstanceAs (Decidable (_ ∨ _))

theorem dead_iff {more n : Nat} (leads : Leads more (n / 64)) :
    Dead (UInt8.ofNat (base more + n / 64)) (UInt8.ofNat (0x80 + n % 64)) ↔
      more = 2 ∧ (n < 0x20 ∨ 0x360 ≤ n ∧ n < 0x380) ∨ more = 3 ∧ (n < 0x10 ∨ 0x110 ≤ n) := by
  have first : (UInt8.ofNat (base more + n / 64)).toNat = base more + n / 64 := by
    apply UInt8.toNat_ofNat_of_lt'
    unfold Leads at leads
    unfold base
    grind
  have second : (UInt8.ofNat (0x80 + n % 64)).toNat = 0x80 + n % 64 := UInt8.toNat_ofNat_of_lt' (show _ < 256 by omega)
  unfold Dead
  simp only [← UInt8.toNat_inj, UInt8.lt_iff_toNat_lt, UInt8.le_iff_toNat_le, first, second, UInt8.reduceToNat]
  rcases leads with ⟨rfl, low, high⟩ | ⟨rfl, high⟩ | ⟨rfl, high⟩ <;> simp only [base] <;> norm_num <;> omega

/-- Bits that no dead pair begins are the high bits of a character. -/
theorem exists_completion {more read n : Nat} (leads : Leads more (n / 64 ^ read)) (short : read < more)
    (living : ∀ earlier, read = earlier + 1 → ¬Dead (UInt8.ofNat (base more + n / 64 ^ read))
      (UInt8.ofNat (0x80 + n / 64 ^ earlier % 64))) :
    ∃ c : Char, least more ≤ c.toNat ∧ c.toNat / 64 ^ (more - read) = n := by
  suffices valid : max (least more) (n * 64 ^ (more - read)) / 64 ^ (more - read) = n ∧
      max (least more) (n * 64 ^ (more - read)) ≤ 0x10FFFF ∧ (max (least more) (n * 64 ^ (more - read)) < 0xD800 ∨
        0xDFFF < max (least more) (n * 64 ^ (more - read))) by
    obtain ⟨bits, most, apart⟩ := valid
    obtain ⟨c, number⟩ := exists_char most apart
    exact ⟨c, by rw [number]; exact le_max_left _ _, by rw [number, bits]⟩
  cases read with
  | zero =>
    unfold least
    rcases leads with ⟨rfl, low, high⟩ | ⟨rfl, high⟩ | ⟨rfl, high⟩ <;> norm_num at high ⊢ <;> omega
  | succ earlier =>
    have alive := living earlier rfl
    rw [Nat.pow_succ, ← Nat.div_div_eq_div_mul] at leads alive
    rw [dead_iff leads] at alive
    unfold least
    rcases leads with ⟨rfl, -⟩ | ⟨rfl, high⟩ | ⟨rfl, high⟩
    · omega
    · obtain rfl : earlier = 0 := by omega
      norm_num at high alive ⊢
      omega
    · obtain rfl | rfl : earlier = 0 ∨ earlier = 1 := by omega
      all_goals norm_num at high alive ⊢
      all_goals omega

theorem sixes_two (base read n : Nat) : ∃ rest, sixes base (read + 1) n =
    UInt8.ofNat (base + n / 64 ^ (read + 1)) :: UInt8.ofNat (0x80 + n / 64 ^ read % 64) :: rest := by
  obtain ⟨rest, split⟩ := sixes_split base 1 n read
  rw [Nat.pow_succ, ← Nat.div_div_eq_div_mul]
  exact ⟨rest, by rw [Nat.add_comm read, split]; rfl⟩

theorem not_dead_of_wellFormed {first second : UInt8} {more : Bytes} (formed : WellFormed (first :: second :: more)) :
    ¬Dead first second := by
  obtain ⟨text, whole⟩ := formed
  cases text with
  | nil => cases whole
  | cons c text =>
    rw [flatMap_cons] at whole
    by_cases plain : c.toNat < 0x80
    · have value : (UInt8.ofNat c.toNat).toNat = c.toNat := UInt8.toNat_ofNat_of_lt' (show _ < 256 by omega)
      have same : first = UInt8.ofNat c.toNat := by
        simp only [utf8, if_pos plain, sixes, singleton_append, cons.injEq] at whole
        simpa using whole.1
      rintro (⟨dead, -⟩ | ⟨dead, -⟩ | ⟨dead, -⟩ | ⟨dead, -⟩)
      all_goals
        rw [← value, ← same, dead] at plain
        exact absurd plain (by decide)
    · obtain ⟨more, leads, enough⟩ := exists_leads c (by omega)
      obtain ⟨rest, two⟩ := sixes_two (base (more + 1)) more c.toNat
      rw [utf8_eq leads enough, two, cons_append, cons_append, cons.injEq, cons.injEq] at whole
      rw [Nat.pow_succ, ← Nat.div_div_eq_div_mul] at leads whole
      rw [whole.1, whole.2.1, dead_iff leads]
      have valid := char_valid c
      unfold least at enough
      rintro (⟨same, dead⟩ | ⟨same, dead⟩)
      · obtain rfl : more = 1 := by omega
        norm_num at enough dead
        omega
      · obtain rfl : more = 2 := by omega
        norm_num at enough dead
        omega

/-- The bytes that were let through, however they were split, are the beginning of a text exactly if none of their
characters begins with two bytes that no character has. -/
theorem feed_in_time_iff (pieces : List Bytes) (goes : (feedAll { } pieces).2 = true) :
    (∃ more, WellFormed (pieces.flatten ++ more)) ↔ ∀ front first second more,
      pieces.flatten = front ++ first :: second :: more → WellFormed front → ¬Dead first second := by
  rw [feedAll_eq] at goes
  constructor
  · rintro ⟨more, formed⟩ front first second rest split whole
    rw [split, append_assoc] at formed
    exact not_dead_of_wellFormed (wellFormed_of_append formed whole)
  · intro living
    obtain ⟨front, tail, split, formed, pending⟩ := Pending.feed (v := { }) (.none rfl) _ goes
    rw [nil_append] at split
    rw [split]
    cases pending with
    | none => exact ⟨[], by simpa using formed⟩
    | some more read left pending minimum leads =>
      obtain ⟨c, enough, bits⟩ := exists_completion leads (by omega) fun earlier same => by
        subst same
        obtain ⟨rest, two⟩ := sixes_two (base more) earlier (feed { } pieces.flatten).1.codepoint
        exact living front _ _ rest (two ▸ split) formed
      rw [← bits, Nat.div_div_eq_div_mul, ← Nat.pow_add, Nat.sub_add_cancel (by omega)] at leads
      obtain ⟨rest, whole⟩ := sixes_split (base more) read c.toNat (more - read)
      rw [Nat.add_sub_cancel' (by omega), ← utf8_eq leads enough, bits] at whole
      exact ⟨rest, by rw [append_assoc, ← whole]; exact formed.append (.single c)⟩

/-- Two bytes of three, in two pieces behind a character of two. -/
theorem feed_in_time_lead : ∃ more, WellFormed ([[0xC3, 0xA9, 0xE2], [0x82]].flatten ++ more) :=
  (feed_in_time_iff [[0xC3, 0xA9, 0xE2], [0x82]] (by decide)).mpr (by
    intro front first second more split whole
    rcases front with _ | ⟨a, _ | ⟨b, _ | ⟨c, front⟩⟩⟩
    · cases split
      decide
    · cases split
      decide
    · cases split
      decide
    have length := congrArg List.length split
    simp at length
    omega)

/-- Neither an overlong second byte nor that of a surrogate is refused, and no text begins with them. -/
theorem second_byte_late : ((feedAll { } [[0xE0, 0x80]]).2 = true ∧ ∀ more, ¬WellFormed ([0xE0, 0x80] ++ more)) ∧
    (feedAll { } [[0xED, 0xA0]]).2 = true ∧ ∀ more, ¬WellFormed ([0xED, 0xA0] ++ more) :=
  ⟨⟨by decide, fun _ formed => not_dead_of_wellFormed formed (by decide)⟩,
    by decide, fun _ formed => not_dead_of_wellFormed formed (by decide)⟩

end UTF8Validator

inductive WSOpcode
  | continuation | text | binary | close | ping | pong
deriving DecidableEq

namespace WSOpcode

def rawValue : WSOpcode → UInt8
  | continuation => 0x0
  | text => 0x1
  | binary => 0x2
  | close => 0x8
  | ping => 0x9
  | pong => 0xA

def isControl (opcode : WSOpcode) : Bool := opcode.rawValue &&& 0x8 ≠ 0

def ofRaw (raw : UInt8) : Option WSOpcode := [continuation, text, binary, close, ping, pong].find? (·.rawValue = raw)

end WSOpcode

structure WSFrameHeader where
  fin : Bool
  rsv1 : Bool
  opcode : WSOpcode
  masked : Bool
  payloadLength : Nat
  mask : Bytes
  headerLength : Nat

def WSFrameHeader.totalLength (h : WSFrameHeader) : Nat := h.headerLength + h.payloadLength

inductive WSDecodeError
  | protocolError | messageTooBig | unmaskedClientFrame

inductive WSDecodeResult
  | needMore
  | header (head : WSFrameHeader)
  | failure (error : WSDecodeError)

namespace WebSocketCodec

/-- The length of the payload and the bytes read so far, or why there is none. -/
def readLength (p : Bytes) (length : Nat) : Except WSDecodeResult (Nat × Nat) :=
  if length = 126 then
    if p.length < 4 then .error .needMore
    else
      let length := ((p.drop 2).take 2).foldl (fun v b => v * 256 + b.toNat) 0
      if length < 126 then .error (.failure .protocolError) else .ok (length, 4)
  else if length = 127 then
    if p.length < 10 then .error .needMore
    else if p.getD 2 0 &&& 0x80 ≠ 0 then .error (.failure .protocolError)
    else
      let length := ((p.drop 2).take 8).foldl (fun v b => v * 256 + b.toNat) 0
      if length ≤ 0xFFFF then .error (.failure .protocolError) else .ok (length, 10)
  else .ok (length, 2)

def parseHeader (p : Bytes) (maxPayload : Int) (allowRSV1 : Bool) : WSDecodeResult :=
  if p.length < 2 then .needMore
  else
    let b0 := p.getD 0 0
    let b1 := p.getD 1 0
    let rsv1 := b0 &&& 0x40 ≠ 0
    if b0 &&& 0x30 ≠ 0 ∨ (rsv1 ∧ ¬allowRSV1) then .failure .protocolError
    else
      match WSOpcode.ofRaw (b0 &&& 0x0F) with
      | none => .failure .protocolError
      | some opcode =>
        if rsv1 ∧ (opcode.isControl ∨ opcode = .continuation) then .failure .protocolError
        else
          let fin : Bool := b0 &&& 0x80 ≠ 0
          match readLength p (b1 &&& 0x7F).toNat with
          | .error result => result
          | .ok (length, offset) =>
            if opcode.isControl ∧ (length > 125 ∨ ¬fin) then .failure .protocolError
            else if ¬opcode.isControl ∧ length > maxPayload then .failure .messageTooBig
            else if b1 &&& 0x80 = 0 then .header ⟨fin, rsv1, opcode, false, length, [0, 0, 0, 0], offset⟩
            else if p.length < offset + 4 then .needMore
            else .header ⟨fin, rsv1, opcode, true, length, (p.drop offset).take 4, offset + 4⟩

/-- The first byte of a frame: its flags and its opcode. -/
def firstByte (opcode : WSOpcode) (fin rsv1 : Bool) : UInt8 :=
  (if fin then 0x80 else 0) ||| (if rsv1 then 0x40 else 0) ||| opcode.rawValue

def writeFrame (opcode : WSOpcode) (fin rsv1 : Bool) (payload : Bytes) : Bytes :=
  let length := payload.length
  firstByte opcode fin rsv1 ::
    (if length < 126 then [UInt8.ofNat length]
    else if length ≤ 0xFFFF then [126, UInt8.ofNat (length >>> 8), UInt8.ofNat length]
    else 127 :: [56, 48, 40, 32, 24, 16, 8, 0].map fun shift => UInt8.ofNat (length >>> shift)) ++ payload

def writeClose (code : UInt16) (reason : Bytes) : Bytes :=
  writeFrame .close true false (UInt8.ofNat (code.toNat >>> 8) :: UInt8.ofNat code.toNat :: reason.take 123)

theorem short_length : ∀ n < 128, (UInt8.ofNat n &&& 0x7F).toNat = n ∧ UInt8.ofNat n &&& 0x80 = 0 := by
  decide +kernel

/-- A frame that may be sent to a peer with these settings. -/
structure Frame (maxPayload : Int) (allowRSV1 : Bool) where
  opcode : WSOpcode
  fin : Bool
  rsv1 : Bool
  payload : Bytes
  control : opcode.isControl → fin ∧ payload.length ≤ 125 ∧ rsv1 = false
  compressed : rsv1 → allowRSV1 ∧ opcode ≠ .continuation
  room : opcode.isControl = false → payload.length ≤ maxPayload
  sized : payload.length < 2 ^ 63

theorem firstByte_bits (opcode : WSOpcode) : ∀ fin rsv1, firstByte opcode fin rsv1 &&& 0x30 = 0 ∧
    WSOpcode.ofRaw (firstByte opcode fin rsv1 &&& 0x0F) = some opcode ∧
    (firstByte opcode fin rsv1 &&& 0x40 ≠ 0 ↔ rsv1) ∧ (firstByte opcode fin rsv1 &&& 0x80 ≠ 0 ↔ fin) := by
  cases opcode <;> decide

theorem readLength_short {length : Nat} (short : length < 126) (p : Bytes) : readLength p length = .ok (length, 2) := by
  unfold readLength
  rw [if_neg (by omega), if_neg (by omega)]

theorem Frame.parsed {maxPayload : Int} {allowRSV1 : Bool} (frame : Frame maxPayload allowRSV1) {second : UInt8}
    {p : Bytes} {offset : Nat} (unmasked : second &&& 0x80 = 0)
    (read : ∀ first, readLength (first :: second :: p) (second &&& 0x7F).toNat = .ok (frame.payload.length, offset)) :
    parseHeader (firstByte frame.opcode frame.fin frame.rsv1 :: second :: p) maxPayload allowRSV1 =
      .header ⟨frame.fin, frame.rsv1, frame.opcode, false, frame.payload.length, [0, 0, 0, 0], offset⟩ := by
  have control := frame.control
  have compressed := frame.compressed
  have room := frame.room
  obtain ⟨reserved, known, marked, final⟩ := firstByte_bits frame.opcode frame.fin frame.rsv1
  unfold parseHeader
  simp only [getD_cons_zero, getD_cons_succ, known, read, marked, final]
  rw [if_neg (by simp), if_neg (by grind), if_neg (by grind), if_neg (by grind), if_neg (by grind), if_pos unmasked]
  simp only [Bool.decide_eq_true]

variable {payload : Bytes}

theorem writeFrame_close (short : payload.length < 126) :
    writeFrame .close true false payload = 0x88 :: UInt8.ofNat payload.length :: payload := by
  unfold writeFrame
  extract_lets length
  rw [if_pos short]
  rfl

theorem parseHeader_close (short : payload.length < 126) (maxPayload : Int) (allowRSV1 : Bool) :
    parseHeader (writeFrame .close true false payload) maxPayload allowRSV1 =
      .header ⟨true, false, .close, false, payload.length, [0, 0, 0, 0], 2⟩ := by
  obtain ⟨value, unmasked⟩ := short_length _ (short.trans (by decide))
  rw [writeFrame_close short]
  change parseHeader (firstByte .close true false :: _) _ _ = _
  exact Frame.parsed ⟨.close, true, false, payload, fun _ => ⟨rfl, Nat.le_of_lt_succ short, rfl⟩, nofun, nofun,
    short.trans (by decide)⟩ unmasked fun _ => by rw [value, readLength_short short]

theorem readLength_written (sized : payload.length < 2 ^ 63) : ∃ second more,
    (∀ opcode fin rsv1, writeFrame opcode fin rsv1 payload = firstByte opcode fin rsv1 :: second :: (more ++ payload)) ∧
      second &&& 0x80 = 0 ∧ ∀ rest first, readLength (first :: second :: (more ++ rest)) (second &&& 0x7F).toNat =
        .ok (payload.length, more.length + 2) := by
  unfold writeFrame
  extract_lets length
  split_ifs with short middle
  · obtain ⟨value, unmasked⟩ := short_length length (by omega)
    refine ⟨_, [], fun _ _ _ => rfl, unmasked, fun rest first => ?_⟩
    rw [value]
    exact readLength_short short _
  · refine ⟨126, [_, _], fun _ _ _ => rfl, by decide, fun rest first => ?_⟩
    have whole : length / 256 % 256 * 256 + length % 256 = length := by omega
    simp [readLength, Nat.shiftRight_eq_div_pow, whole, short]
    rfl
  have top := (short_length (length / 72057594037927936) (by omega)).2
  refine ⟨127, _, fun _ _ _ => rfl, by decide, fun rest first => ?_⟩
  simp [readLength, Nat.shiftRight_eq_div_pow]
  rw [if_neg (by omega), if_pos top, if_neg (by omega)]
  congr 2
  omega

/-- A frame is read back as it was written, also while its payload is still on the way. -/
theorem frame_read_back {maxPayload : Int} {allowRSV1 : Bool} (frame : Frame maxPayload allowRSV1) :
    ∃ front, writeFrame frame.opcode frame.fin frame.rsv1 frame.payload = front ++ frame.payload ∧
      ∀ rest, parseHeader (front ++ rest) maxPayload allowRSV1 = .header ⟨frame.fin, frame.rsv1, frame.opcode, false,
        frame.payload.length, [0, 0, 0, 0], front.length⟩ := by
  obtain ⟨second, more, written, unmasked, read⟩ := readLength_written frame.sized
  exact ⟨_ :: _ :: more, written _ _ _, fun rest => frame.parsed unmasked (read rest)⟩

/-- The header of a binary frame with 300 bytes to come, whose length takes two bytes. -/
theorem frame_read_back_long : ∃ front, writeFrame .binary true false (List.replicate 300 7) =
    front ++ List.replicate 300 7 ∧ parseHeader front 1000 false =
      .header ⟨true, false, .binary, false, 300, [0, 0, 0, 0], front.length⟩ := by
  have sized : (List.replicate 300 (7 : UInt8)).length = 300 := List.length_replicate
  obtain ⟨front, written, read⟩ := frame_read_back (⟨.binary, true, false, List.replicate 300 7, nofun, nofun,
    fun _ => by rw [sized]; decide, by rw [sized]; decide⟩ : Frame 1000 false)
  refine ⟨front, written, ?_⟩
  have parsed := read []
  rw [List.append_nil] at parsed
  rw [parsed]
  dsimp only
  rw [sized]

/-- The frame of a close code and a reason that is text: a final close frame without a mask, of at most 125 bytes,
which are the code and the beginning of the reason. The validator takes that beginning as complete exactly if no
character of the reason has bytes on both sides of its end. -/
theorem close_reason_iff (code : UInt16) {reason : Bytes} (formed : WellFormed reason) (maxPayload : Int)
    (allowRSV1 : Bool) : ∃ head, parseHeader (writeClose code reason) maxPayload allowRSV1 = .header head ∧
      head.fin = true ∧ head.masked = false ∧ head.opcode = .close ∧ head.payloadLength ≤ 125 ∧
      head.totalLength = (writeClose code reason).length ∧
      ∃ cut, (writeClose code reason).drop head.headerLength =
        UInt8.ofNat (code.toNat >>> 8) :: UInt8.ofNat code.toNat :: cut ∧ cut = reason.take 123 ∧
      ((UTF8Validator.feed { } cut).2 = true ∧ (UTF8Validator.feed { } cut).1.isComplete = true ↔
        ∃ before after : List Char, reason = before.flatMap utf8 ++ after.flatMap utf8 ∧
          (before.flatMap utf8).length = min 123 reason.length) := by
  have short : (UInt8.ofNat (code.toNat >>> 8) :: UInt8.ofNat code.toNat :: reason.take 123).length < 126 := by
    rw [List.length_cons, List.length_cons, List.length_take]
    omega
  refine ⟨_, parseHeader_close short maxPayload allowRSV1, rfl, rfl, rfl, Nat.le_of_lt_succ short, ?_,
    reason.take 123, ?_, rfl, ?_⟩
  · rw [writeClose, writeFrame_close short, List.length_cons, List.length_cons]
    exact Nat.add_comm 2 _
  · rw [writeClose, writeFrame_close short]
    rfl
  rw [UTF8Validator.wellFormed_iff]
  constructor
  · intro whole
    rw [← List.take_append_drop 123 reason] at formed
    obtain ⟨after, rest⟩ := UTF8Validator.wellFormed_of_append formed whole
    obtain ⟨before, first⟩ := whole
    exact ⟨before, after, by rw [← first, ← rest, List.take_append_drop], by rw [← first, List.length_take]⟩
  · rintro ⟨before, after, split, length⟩
    refine ⟨before, ?_⟩
    rw [List.take_eq_take_min, ← length, split, List.take_left]

/-- A reason of 125 bytes is cut behind the two bytes of a character. -/
theorem close_reason_cut : ∃ reason, WellFormed reason ∧ reason.length = 125 ∧ ∃ head,
    parseHeader (writeClose 1000 reason) 0 false = .header head ∧ head.opcode = .close ∧
      (UTF8Validator.feed { } (reason.take 123)).1.isComplete = true := by
  have formed : WellFormed ((List.replicate 121 'a' ++ ['é']).flatMap utf8 ++ ['b', 'c'].flatMap utf8) :=
    .append ⟨_, rfl⟩ ⟨_, rfl⟩
  obtain ⟨head, parsed, -, -, close, -, -, cut, -, rfl, whole⟩ := close_reason_iff 1000 formed 0 false
  refine ⟨_, formed, by decide +kernel, head, parsed, close, (whole.mpr ⟨_, _, rfl, ?_⟩).2⟩
  decide +kernel

/-- The last of 123 bytes is the first of a character's two. -/
theorem close_reason_split : ∃ reason, WellFormed reason ∧
    (UTF8Validator.feed { } ((writeClose 1000 reason).drop 4)).1.isComplete = false := by
  exact ⟨(List.replicate 122 'a' ++ ['é']).flatMap utf8, ⟨_, rfl⟩, by decide +kernel⟩

end WebSocketCodec
end AvianCore.Http
