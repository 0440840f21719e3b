import AvianCore.Http.ReadBack
import AvianCore.Time.Civil

/-!
Instants as text (`CivilTime.format` and `CivilTime.parse`). The reader is set against a grammar of time stamps:
it takes those and no others, and what it makes of one is the instant, unless its arithmetic overflows.
-/

namespace AvianCore.CivilTime
open AvianCore.Lib AvianCore.Http List

def microsecondsPerSecond : Int := 1000000

def microsecondsPerDay : Int := 86400000000

inductive Layout
  | iso8601
  | postgres
  | postgresWithoutZone
deriving DecidableEq, Repr

/-- The decimal digits of a number that is not negative, filled up with zeros. -/
def padded (value : Int) (width : Nat) : Bytes :=
  let digits := writeDecimal value.toNat
  List.replicate (width - digits.length) cZero ++ digits

def cMinus : UInt8 := 45

def trimFraction : Nat → Int → Nat → Int × Nat
  | 0, fraction, width => (fraction, width)
  | fuel + 1, fraction, width =>
    if fraction.tmod 10 = 0 then trimFraction fuel (fraction.tdiv 10) (width - 1) else (fraction, width)

def formatYear (year : Int) (bc : Bool) : Except Refusal Bytes :=
  if bc then do
    let counted ← int64 (1 - year)
    pure (padded counted 4)
  else if year < 0 then do
    let counted ← int64 (-year)
    pure (cMinus :: padded counted 4)
  else pure (padded year 4)

def formatFraction (fraction : Int) : Bytes :=
  if 0 < fraction then
    let trimmed := trimFraction 5 fraction 6
    ascii "." ++ padded trimmed.1 trimmed.2
  else []

def formatCivil (civil : YMD) (time : Int) (layout : Layout) : Except Refusal Bytes := do
  let bc : Bool := layout ≠ .iso8601 ∧ civil.year ≤ 0
  let year ← formatYear civil.year bc
  let seconds := time.tdiv microsecondsPerSecond
  pure (year ++ ascii "-" ++ padded civil.month 2 ++ ascii "-" ++ padded civil.day 2 ++
    (if layout = .iso8601 then ascii "T" else ascii " ") ++
    padded (seconds.tdiv 3600) 2 ++ ascii ":" ++ padded ((seconds.tdiv 60).tmod 60) 2 ++ ascii ":" ++
    padded (seconds.tmod 60) 2 ++ formatFraction (time.tmod microsecondsPerSecond) ++
    (match layout with
      | .iso8601 => ascii "Z"
      | .postgres => ascii "+00"
      | .postgresWithoutZone => []) ++
    if bc then ascii " BC" else [])

def format (microseconds : Int) (layout : Layout) : Except Refusal Bytes := do
  let late := microseconds.tmod microsecondsPerDay < 0
  let days ← int64 (microseconds.tdiv microsecondsPerDay - if late then 1 else 0)
  let time ← int64 (microseconds.tmod microsecondsPerDay + if late then microsecondsPerDay else 0)
  let civil ← date days
  formatCivil civil time layout

/-- So many more digits at most: their value, how many there were, and the rest. -/
def digitLoop : Nat → Int → Nat → Bytes → Except Refusal (Int × Nat × Bytes)
  | 0, value, count, p => pure (value, count, p)
  | _ + 1, value, count, [] => pure (value, count, [])
  | room + 1, value, count, c :: rest =>
    if isDigit c then do
      let tens ← int64 (value * 10)
      let value ← int64 (tens + (c - cZero).toNat)
      digitLoop room value (count + 1) rest
    else pure (value, count, c :: rest)

def digits (min max : Nat) (p : Bytes) : Except Refusal (Int × Bytes) := do
  let (value, count, rest) ← digitLoop max 0 0 p
  if min ≤ count then pure (value, rest) else .error .missing

def expect (c : UInt8) (p : Bytes) : Option Bytes :=
  match p with
  | [] => none
  | d :: rest => if d = c then some rest else none

def require (c : UInt8) (p : Bytes) : Except Refusal Bytes :=
  match expect c p with
  | some rest => pure rest
  | none => .error .missing

def cPlus : UInt8 := 43

def readSign (p : Bytes) : Int × Bool × Bytes :=
  match p with
  | [] => (1, false, [])
  | c :: rest => if c = cMinus then (-1, true, rest) else if c = cPlus then (1, true, rest) else (1, false, p)

def isTimeMark (c : UInt8) : Bool := c = 0x54 || c = 0x74 || c = cSP

def readTimeMark (p : Bytes) : Except Refusal Bytes :=
  match p with
  | [] => .error .missing
  | c :: rest => if isTimeMark c then pure rest else .error .missing

def fractionLoop (micros place : Int) (count : Nat) : Bytes → Except Refusal (Int × Nat × Bytes)
  | [] => pure (micros, count, [])
  | c :: rest =>
    if isDigit c then do
      let more ← int64 ((c - cZero).toNat * place)
      let micros ← int64 (micros + more)
      fractionLoop micros (place.tdiv 10) (count + 1) rest
    else pure (micros, count, c :: rest)

def readFraction (p : Bytes) : Except Refusal (Int × Bytes) :=
  match expect 0x2E p with
  | none => pure (0, p)
  | some p => do
    let (micros, count, rest) ← fractionLoop 0 100000 0 p
    if 0 < count then pure (micros, rest) else .error .missing

def readUpTo (bound : Int) (p : Bytes) : Except Refusal (Int × Bytes) := do
  let (value, rest) ← digits 2 2 p
  if value ≤ bound then pure (value, rest) else .error .missing

def readOffsetSeconds (p : Bytes) : Except Refusal (Int × Bytes) :=
  match expect cColon p with
  | none => pure (0, p)
  | some p => readUpTo 59 p

def readOffsetMinutes (p : Bytes) : Except Refusal (Int × Int × Bytes) :=
  let behind := (expect cColon p).getD p
  if (expect cColon p).isSome ∨ p.head?.any isDigit then do
    let (minutes, rest) ← readUpTo 59 behind
    let (seconds, rest) ← readOffsetSeconds rest
    pure (minutes, seconds, rest)
  else pure (0, 0, p)

def readOffset (sign : Int) (p : Bytes) : Except Refusal (Int × Bytes) := do
  let (hours, rest) ← readUpTo 23 p
  let (minutes, seconds, rest) ← readOffsetMinutes rest
  let hours ← int64 (hours * 3600)
  let minutes ← int64 (minutes * 60)
  let total ← int64 (hours + minutes)
  let total ← int64 (total + seconds)
  let offset ← int64 (sign * total)
  pure (offset, rest)

def isUTCMark (c : UInt8) : Bool := c = 0x5A || c = 0x7A

def readZone (p : Bytes) : Except Refusal (Int × Bytes) :=
  match p with
  | [] => pure (0, [])
  | c :: rest =>
    if isUTCMark c then pure (0, rest)
    else if c = cMinus then readOffset (-1) rest
    else if c = cPlus then readOffset 1 rest
    else pure (0, p)

/-- Years before Christ count from 1, and a signed year is none of them. -/
def readBC (signed : Bool) (year : Int) (p : Bytes) : Except Refusal (Int × Bytes) :=
  if p = ascii " BC" then
    if signed = false ∧ 1 ≤ year then do
      let year ← int64 (1 - year)
      pure (year, [])
    else .error .missing
  else pure (year, p)

/-- What a text says. -/
structure Fields where
  year : Int
  month : Int
  day : Int
  hour : Int
  minute : Int
  second : Int
  micros : Int
  offset : Int
deriving DecidableEq, Repr

def Fields.valid (f : Fields) : Bool :=
  1 ≤ f.month ∧ f.month ≤ 12 ∧ 1 ≤ f.day ∧ f.day ≤ daysInMonth f.year f.month ∧ f.hour ≤ 23 ∧ f.minute ≤ 59 ∧
    f.second ≤ 59

def readFields (p : Bytes) : Except Refusal Fields := do
  let (sign, signed, p) := readSign p
  let (year, p) ← digits 4 6 p
  let p ← require cMinus p
  let (month, p) ← digits 2 2 p
  let p ← require cMinus p
  let (day, p) ← digits 2 2 p
  let year ← int64 (year * sign)
  let p ← readTimeMark p
  let (hour, p) ← digits 2 2 p
  let p ← require cColon p
  let (minute, p) ← digits 2 2 p
  let p ← require cColon p
  let (second, p) ← digits 2 2 p
  let (micros, p) ← readFraction p
  let (offset, p) ← readZone p
  let (year, p) ← readBC signed year p
  let fields : Fields := ⟨year, month, day, hour, minute, second, micros, offset⟩
  if p = [] ∧ fields.valid then pure fields else .error .missing

def finish (f : Fields) : Except Refusal Int := do
  let hours ← int64 (f.hour * 3600)
  let minutes ← int64 (f.minute * 60)
  let clock ← int64 (hours + minutes)
  let clock ← int64 (clock + f.second)
  let clock ← int64 (clock - f.offset)
  let clock ← int64 (clock * microsecondsPerSecond)
  let clock ← int64 (clock + f.micros)
  let number ← days f.year f.month f.day
  let midnight ← int64 (number * microsecondsPerDay)
  int64 (midnight + clock)

def parse (p : Bytes) : Except Refusal Int := do
  let fields ← readFields p
  finish fields

theorem int64_ok {x : Int} (low : -2 ^ 63 ≤ x) (high : x < 2 ^ 63) : int64 x = .ok x := by
  unfold int64 checked
  exact if_pos ⟨low, high⟩

theorem digitLoop_cons {v : Nat} (small : v < 2 ^ 59) {c : UInt8} (digit : isDigit c = true) (room count : Nat)
    (rest : Bytes) : digitLoop (room + 1) v count (c :: rest) =
      digitLoop room ((v * 10 + (c - cZero).toNat : Nat) : Int) (count + 1) rest := by
  have nine := digit_le digit
  have tens : int64 ((v : Int) * 10) = .ok ((v : Int) * 10) := int64_ok (by omega) (by omega)
  have value : int64 ((v : Int) * 10 + ((c - cZero).toNat : Int)) = .ok ((v * 10 + (c - cZero).toNat : Nat) : Int) := by
    rw [int64_ok (by omega) (by omega)]
    rfl
  rw [digitLoop, if_pos digit, tens, ok_bind, value, ok_bind]

theorem digitLoop_eq {room : Nat} {v j : Nat} (few : j + room ≤ 17) (small : v < 10 ^ j) (count : Nat) (p : Bytes) :
    digitLoop room v count p =
      .ok (digitsFrom v ((p.take room).takeWhile isDigit), count + ((p.take room).takeWhile isDigit).length,
        p.drop ((p.take room).takeWhile isDigit).length) := by
  induction room generalizing j v count p with
  | zero =>
    rw [digitLoop]
    rfl
  | succ room ih =>
    cases p with
    | nil => rfl
    | cons c rest =>
      rw [take_succ_cons]
      by_cases digit : isDigit c = true
      · have nine := digit_le digit
        have power : 10 ^ j * 10 = 10 ^ (j + 1) := (Nat.pow_succ ..).symm
        have most : 10 ^ j ≤ 10 ^ 17 := Nat.pow_le_pow_right (by decide) (by omega)
        have next := ih (j := j + 1) (v := v * 10 + (c - cZero).toNat) (by omega) (by omega) (count + 1) rest
        rw [digitLoop_cons (by omega) digit, takeWhile_cons_of_pos digit, next, digitsFrom_cons,
          length_cons, drop_succ_cons, Nat.add_right_comm count 1, Nat.add_assoc count]
      · rw [digitLoop, if_neg digit, takeWhile_cons_of_neg digit]
        rfl

/-- A run of digits with bounds for its length. -/
structure DigitText (min max : Nat) where
  bytes : Bytes
  all : ∀ c ∈ bytes, isDigit c = true
  least : min ≤ bytes.length
  most : bytes.length ≤ max

def DigitText.value {min max : Nat} (text : DigitText min max) : Nat := decimalValue text.bytes

variable {rest : Bytes} {min max : Nat}

theorem digits_text (six : max ≤ 6) (text : DigitText min max)
    (stop : text.bytes.length = max ∨ ∀ c ∈ rest.head?, isDigit c = false) :
    digits min max (text.bytes ++ rest) = .ok ((text.value : Int), rest) := by
  have run : ((text.bytes ++ rest).take max).takeWhile isDigit = text.bytes := by
    rw [take_append, take_of_length_le text.most, takeWhile_append_of_pos text.all]
    rcases stop with full | stop
    · rw [full, Nat.sub_self, take_zero, takeWhile_nil, append_nil]
    cases room : max - text.bytes.length with
    | zero => rw [take_zero, takeWhile_nil, append_nil]
    | succ room =>
      cases rest with
      | nil => rw [take_nil, takeWhile_nil, append_nil]
      | cons c rest =>
        rw [take_succ_cons, takeWhile_cons_of_neg (by rw [stop c rfl]; exact Bool.false_ne_true), append_nil]
  have read := @digitLoop_eq max 0 0 (by omega) (by decide) 0 (text.bytes ++ rest)
  unfold digits
  rw [show (0 : Int) = ((0 : Nat) : Int) from rfl, read, run, drop_left, Nat.zero_add]
  show (if min ≤ text.bytes.length then _ else _) = _
  rw [if_pos text.least]
  rfl

theorem gives_digits (six : max ≤ 6) (p : Bytes) : Gives (digits min max p)
    (fun read => ∃ text : DigitText min max, p = text.bytes ++ read.2 ∧ read.1 = (text.value : Int))
    (· = .missing) := by
  have read := @digitLoop_eq max 0 0 (by omega) (by decide) 0 p
  unfold digits
  rw [show (0 : Int) = ((0 : Nat) : Int) from rfl, read, Nat.zero_add]
  show Gives (if min ≤ ((p.take max).takeWhile isDigit).length then _ else _) _ _
  by_cases enough : min ≤ ((p.take max).takeWhile isDigit).length
  · rw [if_pos enough]
    have most : ((p.take max).takeWhile isDigit).length ≤ max := by
      have shorter := (List.takeWhile_prefix (l := p.take max) isDigit).length_le
      rw [length_take] at shorter
      omega
    have start : (p.take max).takeWhile isDigit = p.take ((p.take max).takeWhile isDigit).length :=
      prefix_iff_eq_take.mp ((List.takeWhile_prefix isDigit).trans (List.take_prefix max p))
    refine ⟨⟨(p.take max).takeWhile isDigit, ?_, enough, most⟩, ?_, rfl⟩
    · intro c member
      exact mem_takeWhile_imp member
    · dsimp only
      conv_rhs => rw [start]
      rw [length_take, Nat.min_eq_left]
      · exact (take_append_drop _ p).symm
      · have shorter := (List.takeWhile_prefix (l := p.take max) isDigit).length_le
        rw [length_take] at shorter
        omega
  · rw [if_neg enough]
    exact rfl

/-- One digit or more. -/
structure FractionText where
  bytes : Bytes
  all : ∀ c ∈ bytes, isDigit c = true
  nonempty : bytes ≠ []

def microsOf (decimals : Bytes) : Nat := decimalValue (decimals.take 6) * 10 ^ (6 - (decimals.take 6).length)

def FractionText.micros (fraction : FractionText) : Nat := microsOf fraction.bytes

def placed : Nat → Bytes → Nat
  | _, [] => 0
  | place, c :: rest => (c - cZero).toNat * place + placed (place / 10) rest

theorem digitsFrom_eq (v : Nat) (p : Bytes) : digitsFrom v p = v * 10 ^ p.length + digitsFrom 0 p := by
  induction p generalizing v with
  | nil => simp [digitsFrom]
  | cons c rest ih =>
    rw [digitsFrom_cons, digitsFrom_cons, ih, ih (0 * 10 + (c - cZero).toNat), length_cons, Nat.pow_succ]
    ring

variable (p : Bytes)

theorem placed_zero : placed 0 p = 0 := by
  induction p with
  | nil => rfl
  | cons c rest ih => rw [placed, Nat.mul_zero, Nat.zero_add, Nat.zero_div, ih]

theorem placed_eq (j : Nat) (p : Bytes) :
    placed (10 ^ j) p = decimalValue (p.take (j + 1)) * 10 ^ (j + 1 - (p.take (j + 1)).length) := by
  induction p generalizing j with
  | nil =>
    rw [take_nil, decimalValue, placed]
    exact (Nat.zero_mul _).symm
  | cons c rest ih =>
    rw [placed, take_succ_cons, decimalValue, digitsFrom_cons, digitsFrom_eq, length_cons]
    cases j with
    | zero =>
      rw [take_zero, show 10 ^ 0 / 10 = 0 from rfl, placed_zero]
      simp [digitsFrom]
    | succ j =>
      have tenth : 10 ^ (j + 1) / 10 = 10 ^ j := by rw [Nat.pow_succ, Nat.mul_div_cancel _ (by decide)]
      have short : (rest.take (j + 1)).length ≤ j + 1 := by
        rw [length_take]
        omega
      have split : 10 ^ (j + 1) = 10 ^ (rest.take (j + 1)).length * 10 ^ (j + 1 - (rest.take (j + 1)).length) := by
        rw [← Nat.pow_add]
        congr 1
        omega
      rw [tenth, ih j, show j + 1 + 1 - ((rest.take (j + 1)).length + 1) = j + 1 - (rest.take (j + 1)).length by omega]
      conv_lhs => rw [split]
      rw [decimalValue]
      ring

theorem placed_lt (j : Nat) {p : Bytes} (all : ∀ c ∈ p, isDigit c = true) : placed (10 ^ j) p < 10 ^ (j + 1) := by
  induction p generalizing j with
  | nil => exact Nat.pow_pos (by decide)
  | cons c rest ih =>
    rw [forall_mem_cons] at all
    have nine := digit_le all.1
    rw [placed]
    cases j with
    | zero =>
      rw [show 10 ^ 0 / 10 = 0 from rfl, placed_zero]
      omega
    | succ j =>
      have tenth : 10 ^ (j + 1) / 10 = 10 ^ j := by rw [Nat.pow_succ, Nat.mul_div_cancel _ (by decide)]
      have later := ih j all.2
      have product : (c - cZero).toNat * 10 ^ (j + 1) ≤ 9 * 10 ^ (j + 1) := Nat.mul_le_mul_right _ nine
      rw [tenth]
      calc (c - cZero).toNat * 10 ^ (j + 1) + placed (10 ^ j) rest
          < 9 * 10 ^ (j + 1) + 10 ^ (j + 1) := Nat.add_lt_add_of_le_of_lt product later
        _ = 10 ^ (j + 1 + 1) := by ring

theorem fractionLoop_eq {text rest : Bytes} (all : ∀ c ∈ text, isDigit c = true)
    (stop : ∀ c ∈ rest.head?, isDigit c = false) {micros place : Nat} (fits : micros + placed place text < 2 ^ 62)
    (count : Nat) : fractionLoop micros place count (text ++ rest) =
      .ok ((micros + placed place text : Nat), count + text.length, rest) := by
  induction text generalizing micros place count with
  | nil =>
    cases rest with
    | nil => rfl
    | cons c rest =>
      rw [nil_append, fractionLoop, if_neg (by rw [stop c rfl]; exact Bool.false_ne_true)]
      rfl
  | cons c text ih =>
    rw [forall_mem_cons] at all
    rw [placed] at fits ⊢
    have more : int64 (((c - cZero).toNat : Int) * (place : Int)) = .ok (((c - cZero).toNat * place : Nat) : Int) := by
      rw [← Nat.cast_mul]
      exact int64_ok (by omega) (by omega)
    have sum : int64 ((micros : Int) + (((c - cZero).toNat * place : Nat) : Int)) =
        .ok ((micros + (c - cZero).toNat * place : Nat) : Int) := by
      rw [← Nat.cast_add]
      exact int64_ok (by omega) (by omega)
    have next := @ih all.2 (micros + (c - cZero).toNat * place) (place / 10) (by omega) (count + 1)
    rw [cons_append, fractionLoop, if_pos all.1, more, ok_bind, sum, ok_bind]
    show fractionLoop _ ((place / 10 : Nat) : Int) _ _ = _
    rw [next, length_cons, Nat.add_assoc micros, Nat.add_right_comm count 1, Nat.add_assoc count]

theorem microsOf_eq : placed 100000 p = microsOf p := placed_eq 5 p

theorem microsOf_lt {p : Bytes} (all : ∀ c ∈ p, isDigit c = true) : microsOf p < 1000000 := by
  rw [← microsOf_eq]
  exact placed_lt 5 all

theorem fractionLoop_text {text rest : Bytes} (all : ∀ c ∈ text, isDigit c = true)
    (stop : ∀ c ∈ rest.head?, isDigit c = false) :
    fractionLoop 0 100000 0 (text ++ rest) = .ok ((microsOf text : Int), text.length, rest) := by
  have small := microsOf_lt all
  have read := @fractionLoop_eq text rest all stop 0 100000 (by rw [microsOf_eq]; omega) 0
  rw [microsOf_eq, Nat.zero_add, Nat.zero_add] at read
  exact read

def fractionBytes (fraction : Option FractionText) : Bytes := fraction.elim [] fun f => 0x2E :: f.bytes

def fractionMicros (fraction : Option FractionText) : Nat := fraction.elim 0 FractionText.micros

theorem readFraction_text (fraction : Option FractionText) (stop : ∀ c ∈ rest.head?, isDigit c = false ∧ c ≠ 0x2E) :
    readFraction (fractionBytes fraction ++ rest) = .ok ((fractionMicros fraction : Int), rest) := by
  unfold readFraction
  cases fraction with
  | none =>
    have absent : expect 0x2E (fractionBytes none ++ rest) = none := by
      cases rest with
      | nil => rfl
      | cons c rest => exact if_neg (stop c rfl).2
    rw [absent]
    rfl
  | some fraction =>
    have positive := length_pos_iff.mpr fraction.nonempty
    have read := fractionLoop_text fraction.all (fun c first => (stop c first).1)
    show (fractionLoop 0 100000 0 (fraction.bytes ++ rest) >>= _) = _
    rw [read, ok_bind]
    exact if_pos positive

theorem gives_readFraction : Gives (readFraction p)
    (fun read => ∃ fraction : Option FractionText, p = fractionBytes fraction ++ read.2 ∧
      read.1 = (fractionMicros fraction : Int))
    (· = .missing) := by
  unfold readFraction
  cases p with
  | nil => exact ⟨none, rfl, rfl⟩
  | cons c rest =>
    by_cases dot : c = 0x2E
    · have found : expect 0x2E (c :: rest) = some rest := if_pos dot
      have all : ∀ c ∈ rest.takeWhile isDigit, isDigit c = true := fun c member => mem_takeWhile_imp member
      have stop : ∀ c ∈ (rest.dropWhile isDigit).head?, isDigit c = false := by
        intro c first
        have neg := List.head?_dropWhile_not isDigit rest
        rw [Option.mem_def.mp first] at neg
        exact neg
      have read := fractionLoop_text all stop
      rw [takeWhile_append_dropWhile] at read
      rw [found]
      show Gives (fractionLoop 0 100000 0 rest >>= _) _ _
      rw [read, ok_bind]
      by_cases some : 0 < (rest.takeWhile isDigit).length
      · show Gives (if _ then _ else _) _ _
        rw [if_pos some]
        refine ⟨Option.some ⟨rest.takeWhile isDigit, all, length_pos_iff.mp some⟩, ?_, rfl⟩
        show c :: rest = 0x2E :: (rest.takeWhile isDigit ++ rest.dropWhile isDigit)
        rw [dot, takeWhile_append_dropWhile]
      · show Gives (if _ then _ else _) _ _
        rw [if_neg some]
        exact rfl
    · have absent : expect 0x2E (c :: rest) = none := if_neg dot
      rw [absent]
      exact ⟨none, rfl, rfl⟩

/-- Two digits up to a bound. -/
structure UpTo (bound : Nat) extends DigitText 2 2 where
  bounded : decimalValue bytes ≤ bound

theorem readUpTo_text {bound : Nat} (text : UpTo bound) (rest : Bytes) :
    readUpTo bound (text.bytes ++ rest) = .ok ((text.value : Int), rest) := by
  have full : text.bytes.length = 2 := Nat.le_antisymm text.most text.least
  have bounded : (text.value : Int) ≤ (bound : Int) := Int.ofNat_le.mpr text.bounded
  unfold readUpTo
  rw [digits_text (by decide) text.toDigitText (Or.inl full), ok_bind]
  exact if_pos bounded

theorem gives_readUpTo (bound : Nat) (p : Bytes) :
    Gives (readUpTo bound p) (fun read => ∃ text : UpTo bound, p = text.bytes ++ read.2 ∧ read.1 = (text.value : Int))
      (· = .missing) := by
  unfold readUpTo
  apply (gives_digits (by decide) p).bind
  rintro ⟨value, rest⟩ ⟨text, split, same⟩
  dsimp only at split same
  show Gives (if value ≤ (bound : Int) then _ else _) _ _
  by_cases bounded : value ≤ (bound : Int)
  · rw [if_pos bounded]
    rw [same] at bounded
    exact ⟨⟨text, Int.ofNat_le.mp bounded⟩, split, same⟩
  · rw [if_neg bounded]
    exact rfl

theorem expect_none {c : UInt8} (stop : ∀ d ∈ rest.head?, d ≠ c) : expect c rest = none := by
  cases rest with
  | nil => rfl
  | cons d rest => exact if_neg (stop d rfl)

theorem expect_cases (c : UInt8) (p : Bytes) : expect c p = none ∨ ∃ rest, p = c :: rest ∧ expect c p = some rest := by
  cases p with
  | nil => exact .inl rfl
  | cons d rest =>
    by_cases same : d = c
    · exact .inr ⟨rest, by rw [same], if_pos same⟩
    · exact .inl (if_neg same)

def secondsBytes (seconds : Option (UpTo 59)) : Bytes := seconds.elim [] fun s => cColon :: s.bytes

def secondsValue (seconds : Option (UpTo 59)) : Nat := seconds.elim 0 (·.value)

theorem readOffsetSeconds_text (seconds : Option (UpTo 59)) (stop : ∀ c ∈ rest.head?, c ≠ cColon) :
    readOffsetSeconds (secondsBytes seconds ++ rest) = .ok ((secondsValue seconds : Int), rest) := by
  unfold readOffsetSeconds
  cases seconds with
  | none =>
    show (match expect cColon rest with | none => _ | some p => _) = _
    rw [expect_none stop]
    rfl
  | some seconds => exact readUpTo_text seconds rest

theorem gives_readOffsetSeconds : Gives (readOffsetSeconds p)
    (fun read => ∃ seconds, p = secondsBytes seconds ++ read.2 ∧ read.1 = (secondsValue seconds : Int))
    (· = .missing) := by
  unfold readOffsetSeconds
  rcases expect_cases cColon p with absent | ⟨rest, split, found⟩
  · rw [absent]
    exact ⟨none, rfl, rfl⟩
  rw [found]
  apply (gives_readUpTo 59 rest).imp
  rintro read ⟨text, same, value⟩
  exact ⟨some text, by rw [split, same]; rfl, value⟩

/-- What may stand behind the hours of an offset. -/
inductive OffsetTail
  | none
  | minutes (colon : Bool) (m : UpTo 59) (seconds : Option (UpTo 59))

def OffsetTail.bytes : OffsetTail → Bytes
  | .none => []
  | .minutes colon m seconds => (if colon then [cColon] else []) ++ (m.bytes ++ secondsBytes seconds)

def OffsetTail.minutesValue : OffsetTail → Nat
  | .none => 0
  | .minutes _ m _ => m.value

def OffsetTail.secondsValue : OffsetTail → Nat
  | .none => 0
  | .minutes _ _ seconds => CivilTime.secondsValue seconds

theorem readOffsetMinutes_text (tail : OffsetTail) (stop : ∀ c ∈ rest.head?, isDigit c = false ∧ c ≠ cColon) :
    readOffsetMinutes (tail.bytes ++ rest) = .ok ((tail.minutesValue : Int), (tail.secondsValue : Int), rest) := by
  unfold readOffsetMinutes
  dsimp only
  cases tail with
  | none =>
    have digit : ¬ ((expect cColon rest).isSome = true ∨ rest.head?.any isDigit = true) := by
      rw [expect_none (fun c first => (stop c first).2)]
      cases rest with
      | nil => simp
      | cons c rest => simp [(stop c rfl).1]
    exact if_neg digit
  | minutes colon m seconds =>
    have later := readOffsetSeconds_text seconds (fun c first => (stop c first).2)
    have read := readUpTo_text m (secondsBytes seconds ++ rest)
    cases colon with
    | true =>
      have found : expect cColon (OffsetTail.bytes (.minutes true m seconds) ++ rest) =
          some (m.bytes ++ (secondsBytes seconds ++ rest)) := by
        show some ((m.bytes ++ secondsBytes seconds) ++ rest) = _
        rw [append_assoc]
      rw [found, if_pos (Or.inl Option.isSome_some), Option.getD_some]
      show (readUpTo ((59 : Nat) : Int) (m.bytes ++ (secondsBytes seconds ++ rest)) >>= _) = _
      rw [read, ok_bind]
      show (readOffsetSeconds (secondsBytes seconds ++ rest) >>= _) = _
      rw [later, ok_bind]
      rfl
    | false =>
      have whole : OffsetTail.bytes (.minutes false m seconds) ++ rest = m.bytes ++ (secondsBytes seconds ++ rest) := by
        show (m.bytes ++ secondsBytes seconds) ++ rest = _
        rw [append_assoc]
      obtain ⟨d, others, spelled⟩ := exists_cons_of_length_pos (show 0 < m.bytes.length by have := m.least; omega)
      have digit := m.all d (by rw [spelled]; exact mem_cons_self)
      have absent : expect cColon (m.bytes ++ (secondsBytes seconds ++ rest)) = none := by
        rw [spelled]
        exact if_neg (isDigit_ne digit (by decide))
      have first : (m.bytes ++ (secondsBytes seconds ++ rest)).head?.any isDigit = true := by
        rw [spelled]
        exact digit
      rw [whole, absent, if_pos (Or.inr first), Option.getD_none]
      show (readUpTo ((59 : Nat) : Int) (m.bytes ++ (secondsBytes seconds ++ rest)) >>= _) = _
      rw [read, ok_bind]
      show (readOffsetSeconds (secondsBytes seconds ++ rest) >>= _) = _
      rw [later, ok_bind]
      rfl

theorem gives_readOffsetMinutes : Gives (readOffsetMinutes p)
    (fun read => ∃ tail : OffsetTail, p = tail.bytes ++ read.2.2 ∧ read.1 = (tail.minutesValue : Int) ∧
      read.2.1 = (tail.secondsValue : Int))
    (· = .missing) := by
  have given : ∀ (colon : Bool) (behind : Bytes), p = (if colon then [cColon] else []) ++ behind →
      Gives (do
        let (minutes, rest) ← readUpTo 59 behind
        let (seconds, rest) ← readOffsetSeconds rest
        pure (minutes, seconds, rest))
        (fun read => ∃ tail : OffsetTail, p = tail.bytes ++ read.2.2 ∧ read.1 = (tail.minutesValue : Int) ∧
          read.2.1 = (tail.secondsValue : Int))
        (· = .missing) := by
    intro colon behind split
    apply (gives_readUpTo 59 behind).bind
    rintro ⟨minutes, rest⟩ ⟨m, same, value⟩
    dsimp only at same value ⊢
    apply (gives_readOffsetSeconds rest).bind
    rintro ⟨seconds, rest'⟩ ⟨s, same', value'⟩
    refine ⟨.minutes colon m s, ?_, value, value'⟩
    rw [split, same, same', OffsetTail.bytes]
    simp only [append_assoc]
  unfold readOffsetMinutes
  dsimp only
  rcases expect_cases cColon p with absent | ⟨rest, split, found⟩
  · rw [absent]
    by_cases digit : p.head?.any isDigit = true
    · rw [if_pos (Or.inr digit)]
      exact given false p rfl
    · rw [if_neg (by simp [digit])]
      exact ⟨.none, rfl, rfl, rfl⟩
  · rw [found, if_pos (Or.inl Option.isSome_some)]
    exact given true rest split

inductive Zone
  | none
  | utc (c : UInt8) (mark : isUTCMark c = true)
  | offset (negative : Bool) (hours : UpTo 23) (tail : OffsetTail)

def Zone.bytes : Zone → Bytes
  | .none => []
  | .utc c _ => [c]
  | .offset negative hours tail => (if negative then cMinus else cPlus) :: (hours.bytes ++ tail.bytes)

def Zone.seconds : Zone → Int
  | .none => 0
  | .utc _ _ => 0
  | .offset negative hours tail =>
    (if negative then -1 else 1) * (hours.value * 3600 + tail.minutesValue * 60 + tail.secondsValue)

theorem OffsetTail.bounds (tail : OffsetTail) : tail.minutesValue ≤ 59 ∧ tail.secondsValue ≤ 59 := by
  cases tail with
  | none => exact ⟨Nat.zero_le _, Nat.zero_le _⟩
  | minutes colon m seconds =>
    constructor
    · exact m.bounded
    · cases seconds with
      | none => exact Nat.zero_le _
      | some s => exact s.bounded

theorem Zone.seconds_bound (zone : Zone) : -86400 < zone.seconds ∧ zone.seconds < 86400 := by
  cases zone with
  | none => exact ⟨by decide, by decide⟩
  | utc c mark => exact ⟨show (-86400 : Int) < 0 by decide, show (0 : Int) < 86400 by decide⟩
  | offset negative hours tail =>
    have bounds := tail.bounds
    have most : hours.value ≤ 23 := hours.bounded
    unfold Zone.seconds
    cases negative <;> simp <;> omega

theorem readOffset_sum {sign hours minutes seconds : Int} (unit : sign = 1 ∨ sign = -1) (h : 0 ≤ hours ∧ hours ≤ 23)
    (m : 0 ≤ minutes ∧ minutes ≤ 59) (s : 0 ≤ seconds ∧ seconds ≤ 59) (rest : Bytes) :
    (do
      let hours ← int64 (hours * 3600)
      let minutes ← int64 (minutes * 60)
      let total ← int64 (hours + minutes)
      let total ← int64 (total + seconds)
      let offset ← int64 (sign * total)
      pure (offset, rest) : Except Refusal (Int × Bytes)) =
        .ok (sign * (hours * 3600 + minutes * 60 + seconds), rest) := by
  rw [int64_ok (by omega) (by omega), ok_bind, int64_ok (by omega) (by omega), ok_bind,
    int64_ok (by omega) (by omega), ok_bind, int64_ok (by omega) (by omega), ok_bind, int64_ok, ok_bind]
  · rfl
  · rcases unit with same | same <;> rw [same] <;> omega
  · rcases unit with same | same <;> rw [same] <;> omega

variable (negative : Bool)

theorem sign_unit : (if negative then -1 else 1 : Int) = 1 ∨ (if negative then -1 else 1 : Int) = -1 := by
  cases negative
  · exact .inl rfl
  · exact .inr rfl

theorem readOffset_text (hours : UpTo 23) (tail : OffsetTail)
    (stop : ∀ c ∈ rest.head?, isDigit c = false ∧ c ≠ cColon) :
    readOffset (if negative then -1 else 1) (hours.bytes ++ tail.bytes ++ rest) =
      .ok ((Zone.offset negative hours tail).seconds, rest) := by
  have bounds := tail.bounds
  have most : hours.value ≤ 23 := hours.bounded
  have first := readUpTo_text hours (tail.bytes ++ rest)
  have later := readOffsetMinutes_text tail stop
  unfold readOffset
  rw [append_assoc]
  show (readUpTo ((23 : Nat) : Int) (hours.bytes ++ (tail.bytes ++ rest)) >>= _) = _
  rw [first, ok_bind]
  show (readOffsetMinutes (tail.bytes ++ rest) >>= _) = _
  rw [later, ok_bind]
  exact readOffset_sum (sign_unit negative) (by omega) (by omega) (by omega) rest

theorem gives_readOffset (p : Bytes) : Gives (readOffset (if negative then -1 else 1) p)
    (fun read => ∃ (hours : UpTo 23) (tail : OffsetTail), p = hours.bytes ++ tail.bytes ++ read.2 ∧
      read.1 = (Zone.offset negative hours tail).seconds)
    (· = .missing) := by
  unfold readOffset
  apply (gives_readUpTo 23 p).bind
  rintro ⟨hours, rest⟩ ⟨h, split, hourIs⟩
  dsimp only at split hourIs ⊢
  apply (gives_readOffsetMinutes rest).bind
  rintro ⟨minutes, seconds, rest'⟩ ⟨tail, split', minuteIs, secondIs⟩
  dsimp only at split' minuteIs secondIs ⊢
  have bounds := tail.bounds
  have most : h.value ≤ 23 := h.bounded
  rw [readOffset_sum (sign_unit negative) (by omega) (by omega) (by omega) rest']
  refine ⟨h, tail, ?_, ?_⟩
  · rw [split, split', append_assoc]
  · dsimp only
    rw [hourIs, minuteIs, secondIs]
    rfl

/-- What may stand behind a zone: nothing, or the mark of a year before Christ. -/
def bcBytes (bc : Bool) : Bytes := if bc then ascii " BC" else []

theorem bcBytes_head (bc : Bool) : ∀ c ∈ (bcBytes bc).head?, c = cSP := by
  cases bc with
  | false =>
    intro c first
    cases first
  | true =>
    intro c first
    cases first
    rfl

theorem mark_plain : ∀ c : UInt8, isUTCMark c = true → isDigit c = false ∧ c ≠ 0x2E := by decide +kernel

theorem readZone_text (zone : Zone) (bc : Bool) : readZone (zone.bytes ++ bcBytes bc) = .ok (zone.seconds, bcBytes bc) := by
  have stop : ∀ c ∈ (bcBytes bc).head?, isDigit c = false ∧ c ≠ cColon := by
    intro c first
    rw [bcBytes_head bc c first]
    decide
  cases zone with
  | none =>
    cases bc with
    | false | true => rfl
  | utc c mark =>
    show (if isUTCMark c then _ else _) = _
    rw [if_pos mark]
    rfl
  | offset negative hours tail =>
    have read := readOffset_text negative hours tail stop
    cases negative with
    | false | true => exact read

theorem gives_readZone :
    Gives (readZone p) (fun read => ∃ zone : Zone, p = zone.bytes ++ read.2 ∧ read.1 = zone.seconds)
      (· = .missing) := by
  unfold readZone
  cases p with
  | nil => exact ⟨.none, rfl, rfl⟩
  | cons c rest =>
    dsimp only
    by_cases mark : isUTCMark c = true
    · rw [if_pos mark]
      exact ⟨.utc c mark, rfl, rfl⟩
    rw [if_neg mark]
    by_cases minus : c = cMinus
    · rw [if_pos minus]
      apply (gives_readOffset true rest).imp
      rintro read ⟨hours, tail, split, same⟩
      refine ⟨.offset true hours tail, ?_, same⟩
      rw [minus, split]
      rfl
    rw [if_neg minus]
    by_cases plus : c = cPlus
    · rw [if_pos plus]
      apply (gives_readOffset false rest).imp
      rintro read ⟨hours, tail, split, same⟩
      refine ⟨.offset false hours tail, ?_, same⟩
      rw [plus, split]
      rfl
    · rw [if_neg plus]
      exact ⟨.none, rfl, rfl⟩

theorem readBC_text {signed : Bool} {year : Nat} {bc : Bool} (proper : bc = true → signed = false ∧ 1 ≤ year)
    (small : year < 2 ^ 62) {signedYear : Int} (plain : bc = true → signedYear = year) :
    readBC signed signedYear (bcBytes bc) = .ok (if bc then 1 - (year : Int) else signedYear, []) := by
  unfold readBC
  cases bc with
  | false => exact if_neg (by decide)
  | true =>
    obtain ⟨unsigned, positive⟩ := proper rfl
    have value := plain rfl
    show (if ascii " BC" = ascii " BC" then _ else _) = _
    rw [if_pos rfl, if_pos ⟨unsigned, by omega⟩, value, int64_ok (by omega) (by omega), ok_bind]
    rfl

/-- A time stamp that exists. -/
structure Stamp where
  /-- Whether the sign of the year is a minus. -/
  sign : Option Bool
  year : DigitText 4 6
  month : DigitText 2 2
  day : DigitText 2 2
  mark : UInt8
  hour : UpTo 23
  minute : UpTo 59
  second : UpTo 59
  fraction : Option FractionText
  zone : Zone
  bc : Bool
  mark_is : isTimeMark mark = true
  bc_unsigned : bc = true → sign = none ∧ 1 ≤ year.value
  month_pos : 1 ≤ month.value
  month_le : month.value ≤ 12
  day_pos : 1 ≤ day.value
  day_le : (day.value : Int) ≤ monthLength
    (if bc then 1 - (year.value : Int) else if sign = some true then -(year.value : Int) else year.value) month.value

namespace Stamp
variable (stamp : Stamp)

def signBytes : Bytes := stamp.sign.elim [] fun minus => [if minus then cMinus else cPlus]

def bytes : Bytes :=
  stamp.signBytes ++ (stamp.year.bytes ++ cMinus :: (stamp.month.bytes ++ cMinus :: (stamp.day.bytes ++ stamp.mark ::
    (stamp.hour.bytes ++ cColon :: (stamp.minute.bytes ++ cColon :: (stamp.second.bytes ++
      (fractionBytes stamp.fraction ++ (stamp.zone.bytes ++ bcBytes stamp.bc))))))))

def civilYear : Int :=
  if stamp.bc then 1 - (stamp.year.value : Int)
  else if stamp.sign = some true then -(stamp.year.value : Int) else stamp.year.value

def date : Date where
  year := stamp.civilYear
  month := stamp.month.value
  day := stamp.day.value
  month_pos := by have := stamp.month_pos; omega
  month_le := by have := stamp.month_le; omega
  day_pos := by have := stamp.day_pos; omega
  day_le := stamp.day_le

def midnight : Int := stamp.date.number * 86400000000

def clock : Int :=
  (stamp.hour.value * 3600 + stamp.minute.value * 60 + stamp.second.value - stamp.zone.seconds) * 1000000 +
    fractionMicros stamp.fraction

def instant : Int := stamp.midnight + stamp.clock

def fields : Fields :=
  ⟨stamp.civilYear, stamp.month.value, stamp.day.value, stamp.hour.value, stamp.minute.value, stamp.second.value,
    fractionMicros stamp.fraction, stamp.zone.seconds⟩

end Stamp

theorem DigitText.value_lt (text : DigitText min max) : text.value < 10 ^ max := by
  have bound : ∀ p : Bytes, (∀ c ∈ p, isDigit c = true) → digitsFrom 0 p < 10 ^ p.length := by
    intro p all
    induction p with
    | nil => exact Nat.one_pos
    | cons c rest ih =>
      rw [forall_mem_cons] at all
      have nine := digit_le all.1
      have later := ih all.2
      rw [digitsFrom_cons, digitsFrom_eq, length_cons]
      calc (0 * 10 + (c - cZero).toNat) * 10 ^ rest.length + digitsFrom 0 rest
          < 9 * 10 ^ rest.length + 10 ^ rest.length :=
            Nat.add_lt_add_of_le_of_lt (Nat.mul_le_mul_right _ (by omega)) later
        _ = 10 ^ (rest.length + 1) := by ring
  exact Nat.lt_of_lt_of_le (bound text.bytes text.all) (Nat.pow_le_pow_right (by decide) text.most)

theorem require_text (c : UInt8) (rest : Bytes) : require c (c :: rest) = .ok rest := by
  have found : expect c (c :: rest) = some rest := if_pos rfl
  unfold require
  rw [found]
  rfl

theorem gives_require (c : UInt8) (p : Bytes) :
    Gives (require c p) (fun rest => p = c :: rest) (· = .missing) := by
  unfold require
  rcases expect_cases c p with absent | ⟨rest, split, found⟩
  · rw [absent]
    exact rfl
  · rw [found]
    exact split

theorem gives_readTimeMark :
    Gives (readTimeMark p) (fun rest => ∃ c, isTimeMark c = true ∧ p = c :: rest) (· = .missing) := by
  cases p with
  | nil => exact rfl
  | cons c rest =>
    unfold readTimeMark
    dsimp only
    by_cases mark : isTimeMark c = true
    · rw [if_pos mark]
      exact ⟨c, mark, rfl⟩
    · rw [if_neg mark]
      exact rfl

def signOf (sign : Option Bool) : Int := if sign = some true then -1 else 1

variable (stamp : Stamp)

theorem readSign_text (rest : Bytes) : readSign (stamp.signBytes ++ (stamp.year.bytes ++ rest)) =
    (signOf stamp.sign, stamp.sign.isSome, stamp.year.bytes ++ rest) := by
  unfold Stamp.signBytes
  cases stamp.sign with
  | none =>
    obtain ⟨c, others, spelled⟩ := exists_cons_of_length_pos
      (show 0 < stamp.year.bytes.length by have := stamp.year.least; omega)
    have digit := stamp.year.all c (by rw [spelled]; exact mem_cons_self)
    have minus : c ≠ cMinus := isDigit_ne digit (by decide)
    have plus : c ≠ cPlus := isDigit_ne digit (by decide)
    rw [spelled]
    show (if c = cMinus then _ else if c = cPlus then _ else _) = _
    rw [if_neg minus, if_neg plus]
    rfl
  | some negative =>
    cases negative with
    | false | true => rfl

theorem gives_readSign : ∃ sign : Option Bool,
    p = (sign.elim [] fun minus => [if minus then cMinus else cPlus]) ++ (readSign p).2.2 ∧
      (readSign p).1 = signOf sign ∧ (readSign p).2.1 = sign.isSome := by
  unfold readSign
  cases p with
  | nil => exact ⟨none, rfl, rfl, rfl⟩
  | cons c rest =>
    dsimp only
    by_cases minus : c = cMinus
    · rw [if_pos minus, minus]
      exact ⟨some true, rfl, rfl, rfl⟩
    rw [if_neg minus]
    by_cases plus : c = cPlus
    · rw [if_pos plus, plus]
      exact ⟨some false, rfl, rfl, rfl⟩
    · rw [if_neg plus]
      exact ⟨none, rfl, rfl, rfl⟩

theorem digits_pair (text : DigitText 2 2) (rest : Bytes) :
    digits 2 2 (text.bytes ++ rest) = .ok ((text.value : Int), rest) :=
  digits_text (by decide) text (Or.inl (Nat.le_antisymm text.most text.least))

theorem zone_head (zone : Zone) (bc : Bool) : ∀ c ∈ (zone.bytes ++ bcBytes bc).head?, isDigit c = false ∧ c ≠ 0x2E := by
  intro c first
  cases zone with
  | none =>
    rw [bcBytes_head bc c first]
    decide
  | utc d mark =>
    cases first
    exact mark_plain c mark
  | offset negative hours tail =>
    cases first
    cases negative <;> decide

theorem year_signed :
    (if stamp.bc then 1 - (stamp.year.value : Int) else (stamp.year.value : Int) * signOf stamp.sign) =
      stamp.civilYear := by
  unfold Stamp.civilYear signOf
  split
  · rfl
  split
  · rw [Int.mul_neg_one]
  · rw [Int.mul_one]

theorem time_bounds : stamp.hour.value ≤ 23 ∧ stamp.minute.value ≤ 59 ∧ stamp.second.value ≤ 59 :=
  ⟨stamp.hour.bounded, stamp.minute.bounded, stamp.second.bounded⟩

theorem fields_valid : stamp.fields.valid = true := by
  have time := time_bounds stamp
  have first := stamp.month_pos
  have last := stamp.month_le
  have low := stamp.day_pos
  have high : (stamp.day.value : Int) ≤ daysInMonth stamp.civilYear stamp.month.value := by
    rw [daysInMonth_eq]
    exact stamp.day_le
  unfold Fields.valid Stamp.fields
  rw [decide_eq_true_eq]
  refine ⟨?_, ?_, ?_, high, ?_, ?_, ?_⟩ <;> dsimp only <;> omega

theorem readFields_stamp : readFields stamp.bytes = .ok stamp.fields := by
  have yearSmall := stamp.year.value_lt
  have sign : stamp.bc = true → (stamp.year.value : Int) * signOf stamp.sign = stamp.year.value := by
    intro bc
    rw [(stamp.bc_unsigned bc).1]
    exact Int.mul_one _
  have unsigned : stamp.bc = true → stamp.sign.isSome = false ∧ 1 ≤ stamp.year.value := by
    intro bc
    rw [(stamp.bc_unsigned bc).1]
    exact ⟨rfl, (stamp.bc_unsigned bc).2⟩
  have signed : int64 ((stamp.year.value : Int) * signOf stamp.sign) = .ok (stamp.year.value * signOf stamp.sign) := by
    unfold signOf
    split <;> exact int64_ok (by omega) (by omega)
  have mark : ∀ rest, readTimeMark (stamp.mark :: rest) = .ok rest := fun rest => if_pos stamp.mark_is
  unfold readFields Stamp.bytes
  rw [readSign_text]
  dsimp only
  rw [digits_text (by decide) stamp.year (Or.inr (by intro c first; cases first; decide)), ok_bind]
  dsimp only
  rw [require_text, ok_bind, digits_pair, ok_bind]
  dsimp only
  rw [require_text, ok_bind, digits_pair, ok_bind]
  dsimp only
  rw [signed, ok_bind, mark, ok_bind, digits_pair, ok_bind]
  dsimp only
  rw [require_text, ok_bind, digits_pair, ok_bind]
  dsimp only
  rw [require_text, ok_bind, digits_pair, ok_bind]
  dsimp only
  rw [readFraction_text _ (zone_head stamp.zone stamp.bc), ok_bind]
  dsimp only
  rw [readZone_text, ok_bind]
  dsimp only
  rw [readBC_text unsigned (by omega) sign, ok_bind, year_signed]
  exact if_pos ⟨rfl, fields_valid stamp⟩

theorem gives_readBC (signed : Bool) {year : Int} (small : -2 ^ 62 < year ∧ year < 2 ^ 62) (p : Bytes) :
    Gives (readBC signed year p)
      (fun read => ∃ bc : Bool, p = bcBytes bc ++ read.2 ∧ (bc = true → signed = false ∧ 1 ≤ year ∧ read.2 = []) ∧
        read.1 = if bc then 1 - year else year)
      (· = .missing) := by
  unfold readBC
  by_cases mark : p = ascii " BC"
  · rw [if_pos mark]
    by_cases proper : signed = false ∧ 1 ≤ year
    · rw [if_pos proper, int64_ok (by omega) (by omega), ok_bind]
      refine ⟨true, ?_, fun _ => ⟨proper.1, proper.2, rfl⟩, rfl⟩
      rw [mark]
      exact (append_nil _).symm
    · rw [if_neg proper]
      exact rfl
  · rw [if_neg mark]
    exact ⟨false, rfl, fun impossible => absurd impossible Bool.false_ne_true, rfl⟩

theorem gives_readFields :
    Gives (readFields p) (fun f => ∃ stamp : Stamp, p = stamp.bytes ∧ f = stamp.fields) (· = .missing) := by
  obtain ⟨sign, split, signIs, signedIs⟩ := gives_readSign p
  unfold readFields
  generalize readSign p = start at split signIs signedIs
  obtain ⟨unit, signed, p₁⟩ := start
  dsimp only at split signIs signedIs ⊢
  apply (gives_digits (by decide) p₁).bind
  rintro ⟨y, p₂⟩ ⟨year, split₁, yearIs⟩
  dsimp only at split₁ yearIs ⊢
  have yearSmall := year.value_lt
  apply (gives_require cMinus p₂).bind
  rintro p₃ split₂
  apply (gives_digits (by decide) p₃).bind
  rintro ⟨mo, p₄⟩ ⟨month, split₃, monthIs⟩
  apply (gives_require cMinus p₄).bind
  rintro p₅ split₄
  apply (gives_digits (by decide) p₅).bind
  rintro ⟨d, p₆⟩ ⟨day, split₅, dayIs⟩
  have unitIs : unit = 1 ∨ unit = -1 := by
    rw [signIs]
    unfold signOf
    split
    · exact .inr rfl
    · exact .inl rfl
  have signedSmall : -2 ^ 62 < y * unit ∧ y * unit < 2 ^ 62 := by
    rcases unitIs with same | same <;> rw [same, yearIs] <;> omega
  rw [int64_ok (by omega) (by omega), ok_bind]
  apply (gives_readTimeMark p₆).bind
  rintro p₇ ⟨mark, markIs, split₆⟩
  apply (gives_digits (by decide) p₇).bind
  rintro ⟨h, p₈⟩ ⟨hour, split₇, hourIs⟩
  apply (gives_require cColon p₈).bind
  rintro p₉ split₈
  apply (gives_digits (by decide) p₉).bind
  rintro ⟨mi, q₁⟩ ⟨minute, split₉, minuteIs⟩
  apply (gives_require cColon q₁).bind
  rintro q₂ cut₁
  apply (gives_digits (by decide) q₂).bind
  rintro ⟨s, q₃⟩ ⟨second, cut₂, secondIs⟩
  apply (gives_readFraction q₃).bind
  rintro ⟨us, q₄⟩ ⟨fraction, cut₃, microsIs⟩
  apply (gives_readZone q₄).bind
  rintro ⟨off, q₅⟩ ⟨zone, cut₄, offsetIs⟩
  apply (gives_readBC signed signedSmall q₅).bind
  rintro ⟨cy, q₆⟩ ⟨bc, cut₅, bcIs, civilIs⟩
  dsimp only at monthIs dayIs hourIs minuteIs secondIs microsIs offsetIs cut₅ bcIs civilIs ⊢
  by_cases done : q₆ = [] ∧ Fields.valid ⟨cy, mo, d, h, mi, s, us, off⟩ = true
  · rw [if_pos done]
    obtain ⟨ended, valid⟩ := done
    unfold Fields.valid at valid
    rw [decide_eq_true_eq] at valid
    dsimp only at valid
    rw [monthIs, dayIs, hourIs, minuteIs, secondIs, daysInMonth_eq] at valid
    have unsigned : bc = true → sign = none ∧ 1 ≤ year.value := by
      intro isBC
      obtain ⟨plain, positive, -⟩ := bcIs isBC
      have absent : sign = none := by
        rw [signedIs] at plain
        cases sign with
        | none => rfl
        | some minus => cases plain
      rw [signIs, absent, yearIs] at positive
      change 1 ≤ (year.value : Int) * 1 at positive
      exact ⟨absent, by omega⟩
    have civil : cy = if bc then 1 - (year.value : Int) else
        if sign = some true then -(year.value : Int) else year.value := by
      rw [civilIs, yearIs, signIs]
      cases bc with
      | true =>
        rw [(unsigned rfl).1]
        show 1 - (year.value : Int) * 1 = 1 - (year.value : Int)
        omega
      | false =>
        unfold signOf
        by_cases minus : sign = some true
        · rw [if_pos minus, if_pos minus]
          exact Int.mul_neg_one _
        · rw [if_neg minus, if_neg minus]
          exact Int.mul_one _
    rw [civil] at valid
    refine ⟨⟨sign, year, month, day, mark, ⟨hour, ?_⟩, ⟨minute, ?_⟩, ⟨second, ?_⟩, fraction, zone, bc, markIs, unsigned,
      ?_, ?_, ?_, valid.2.2.2.1⟩, ?_, ?_⟩
    · exact Int.ofNat_le.mp valid.2.2.2.2.1
    · exact Int.ofNat_le.mp valid.2.2.2.2.2.1
    · exact Int.ofNat_le.mp valid.2.2.2.2.2.2
    · have := valid.1
      omega
    · have := valid.2.1
      omega
    · have := valid.2.2.1
      omega
    · rw [split, split₁, split₂, split₃, split₄, split₅, split₆, split₇, split₈, split₉, cut₁, cut₂, cut₃, cut₄, cut₅,
        ended, append_nil]
      rfl
    · rw [civil, monthIs, dayIs, hourIs, minuteIs, secondIs, microsIs, offsetIs]
      rfl
  · rw [if_neg done]
    exact rfl

/-- In the range of 64-bit microseconds. -/
def Fits (x : Int) : Prop := -2 ^ 63 ≤ x ∧ x < 2 ^ 63

instance (x : Int) : Decidable (Fits x) := inferInstanceAs (Decidable (_ ∧ _))

theorem int64_fits {x : Int} (fits : Fits x) : int64 x = .ok x := int64_ok fits.1 fits.2

theorem int64_trap {x : Int} (large : ¬ Fits x) : int64 x = .error .trap := by
  unfold int64 checked
  exact if_neg large

namespace Stamp
variable (stamp : Stamp)

theorem civilYear_small : -1000000 < stamp.civilYear ∧ stamp.civilYear < 1000000 := by
  have small := stamp.year.value_lt
  unfold civilYear
  split
  · omega
  · split <;> omega

theorem clock_small : -86400000000 < stamp.clock ∧ stamp.clock < 2 * 86400000000 := by
  have time := time_bounds stamp
  have zone := stamp.zone.seconds_bound
  have micros : fractionMicros stamp.fraction < 1000000 := by
    cases stamp.fraction with
    | none => exact (by decide : 0 < 1000000)
    | some fraction => exact microsOf_lt fraction.all
  unfold clock
  omega

theorem finish_eq : finish stamp.fields =
    if Fits stamp.midnight ∧ Fits stamp.instant then .ok stamp.instant else .error .trap := by
  have time := time_bounds stamp
  have zone := stamp.zone.seconds_bound
  have year := stamp.civilYear_small
  have clock := stamp.clock_small
  have number : days stamp.date.year stamp.date.month stamp.date.day = .ok stamp.date.number := by
    have gives : Gives (days stamp.date.year stamp.date.month stamp.date.day) (fun n => n = stamp.date.number)
        fun _ => ¬ True := by
      apply gives_days
      intro _
      show -2 ^ 40 ≤ stamp.civilYear ∧ stamp.civilYear ≤ 2 ^ 40
      omega
    obtain ⟨n, done, same⟩ := (gives.mono (fun _ same => same) (fun _ impossible => impossible trivial)).exists_ok
    rw [done, same]
  have clockIs : int64 (((stamp.hour.value : Int) * 3600 + (stamp.minute.value : Int) * 60 +
      (stamp.second.value : Int) - stamp.zone.seconds) * microsecondsPerSecond + (fractionMicros stamp.fraction : Int)) =
        .ok stamp.clock := int64_ok (by unfold Stamp.clock at clock; unfold microsecondsPerSecond; omega)
          (by unfold Stamp.clock at clock; unfold microsecondsPerSecond; omega)
  unfold finish fields
  dsimp only
  rw [int64_ok (by omega) (by omega), ok_bind, int64_ok (by omega) (by omega), ok_bind,
    int64_ok (by omega) (by omega), ok_bind, int64_ok (by omega) (by omega), ok_bind,
    int64_ok (by omega) (by omega), ok_bind,
    int64_ok (by unfold microsecondsPerSecond; omega) (by unfold microsecondsPerSecond; omega), ok_bind, clockIs, ok_bind]
  change (days stamp.date.year stamp.date.month stamp.date.day >>= _) = _
  rw [number, ok_bind]
  change (int64 stamp.midnight >>= fun midnight => int64 (midnight + stamp.clock)) = _
  by_cases dayFits : Fits stamp.midnight
  · rw [int64_fits dayFits, ok_bind]
    change int64 stamp.instant = _
    by_cases fits : Fits stamp.instant
    · rw [int64_fits fits, if_pos ⟨dayFits, fits⟩]
    · rw [int64_trap fits, if_neg (fun both => fits both.2)]
  · rw [int64_trap dayFits, if_neg (fun both => dayFits both.1)]
    rfl

end Stamp

theorem parse_stamp : parse stamp.bytes =
    if Fits stamp.midnight ∧ Fits stamp.instant then .ok stamp.instant else .error .trap := by
  unfold parse
  rw [readFields_stamp, ok_bind, stamp.finish_eq]

theorem parse_other {p : Bytes} (other : ∀ stamp : Stamp, p ≠ stamp.bytes) : parse p = .error .missing := by
  have read := gives_readFields p
  unfold parse
  cases found : readFields p with
  | ok f =>
    rw [found] at read
    obtain ⟨stamp, same, -⟩ := read
    exact absurd same (other stamp)
  | error e =>
    rw [found] at read
    rw [show e = .missing from read]
    rfl

/-- What is expected of the reader: it does not trap, and of a time stamp it gives the instant if that fits. -/
structure ReadsRightly (p : Bytes) : Prop where
  total : parse p ≠ .error .trap
  stamps : ∀ stamp : Stamp, p = stamp.bytes →
    parse p = if Fits stamp.instant then .ok stamp.instant else .error .missing

/-- The reader does as expected with every text, except with time stamps where the beginning of the day or the
instant is out of range. -/
theorem civil_time_parse_iff (p : Bytes) :
    ReadsRightly p ↔ ∀ stamp : Stamp, p = stamp.bytes → Fits stamp.midnight ∧ Fits stamp.instant := by
  constructor
  · intro right stamp same
    by_contra unfit
    apply right.total
    rw [same, parse_stamp, if_neg unfit]
  · intro fit
    by_cases stamped : ∃ stamp : Stamp, p = stamp.bytes
    · obtain ⟨stamp, same⟩ := stamped
      have fits := fit stamp same
      have value : parse p = .ok stamp.instant := by rw [same, parse_stamp, if_pos fits]
      constructor
      · rw [value]
        intro impossible
        cases impossible
      · intro other also
        have both := fit other also
        rw [if_pos both.2, also, parse_stamp, if_pos both]
    · push Not at stamped
      constructor
      · rw [parse_other stamped]
        decide
      · intro stamp same
        exact absurd same (stamped stamp)

/-- `2026-09-16T20:53:43.196Z` -/
theorem civil_time_parse_iso : ReadsRightly (ascii "2026-09-16T20:53:43.196Z") := by
  apply (civil_time_parse_iff _).mpr
  intro stamp same
  by_contra unfit
  have trapped := parse_stamp stamp
  rw [if_neg unfit, ← same] at trapped
  exact absurd trapped (by decide +kernel)

/-- A year that is too far away, and the earliest instant of all, traps the reader. -/
theorem civil_time_parse_traps : parse (ascii "999999-12-31T23:59:59Z") = .error .trap ∧
      parse (ascii "-290308-12-21T19:59:05.224192Z") = .error .trap := by
  decide +kernel

theorem length_writeDecimal {v k : Nat} (positive : 1 ≤ k) (small : v < 10 ^ k) : (writeDecimal v).length ≤ k := by
  unfold writeDecimal
  split
  · exact positive
  · rw [length_reverse, length_map]
    exact length_lowDigits_le small

theorem digitsFrom_zeros (n : Nat) (p : Bytes) : digitsFrom 0 (List.replicate n cZero ++ p) = digitsFrom 0 p := by
  induction n with
  | zero => rfl
  | succ n ih =>
    rw [replicate_succ, cons_append, digitsFrom_cons]
    exact ih

def paddedText {min max : Nat} (v : Nat) (positive : 1 ≤ max) (wide : min ≤ max) (small : v < 10 ^ max) :
    DigitText min max where
  bytes := padded v min
  all := by
    intro c member
    rcases List.mem_append.mp member with zero | digit
    · rw [(List.mem_replicate.mp zero).2]
      decide
    · exact writeDecimal_digits _ c digit
  least := by
    unfold padded
    rw [List.length_append, List.length_replicate]
    omega
  most := by
    have length : (writeDecimal (v : Int).toNat).length ≤ max := length_writeDecimal positive small
    unfold padded
    rw [List.length_append, List.length_replicate]
    omega

theorem paddedText_value {v : Nat} (positive : 1 ≤ max) (wide : min ≤ max) (small : v < 10 ^ max) (few : max ≤ 6) :
    (paddedText v positive wide small : DigitText min max).value = v := by
  have most : 10 ^ max ≤ 10 ^ 6 := Nat.pow_le_pow_right (by decide) few
  show digitsFrom 0 (List.replicate _ cZero ++ writeDecimal (v : Int).toNat) = v
  rw [digitsFrom_zeros]
  exact decimalValue_writeDecimal (by omega)

theorem trimFraction_spec {fuel : Nat} {f w : Nat} (positive : 0 < f) (small : f < 10 ^ w) (six : w ≤ 6) :
    ∃ f' w' : Nat, trimFraction fuel f w = ((f' : Int), w') ∧ 0 < f' ∧ f' < 10 ^ w' ∧ w' ≤ 6 ∧
      f' * 10 ^ (6 - w') = f * 10 ^ (6 - w) := by
  induction fuel generalizing f w with
  | zero => exact ⟨f, w, rfl, positive, small, six, rfl⟩
  | succ fuel ih =>
    rw [trimFraction]
    by_cases zero : (f : Int).tmod 10 = 0
    · have whole : f % 10 = 0 := by
        have same : (f : Int).tmod 10 = ((f % 10 : Nat) : Int) := rfl
        omega
      obtain ⟨v, rfl⟩ : ∃ v, w = v + 1 := by
        cases w with
        | zero => omega
        | succ v => exact ⟨v, rfl⟩
      rw [Nat.pow_succ] at small
      obtain ⟨f', w', done, spec⟩ := ih (f := f / 10) (w := v) (by omega) (by omega) (by omega)
      refine ⟨f', w', ?_, spec.1, spec.2.1, spec.2.2.1, ?_⟩
      · rw [if_pos zero]
        exact done
      · rw [spec.2.2.2, show 6 - v = 6 - (v + 1) + 1 by omega, Nat.pow_succ]
        have tens : f / 10 * 10 = f := by omega
        calc f / 10 * (10 ^ (6 - (v + 1)) * 10) = f / 10 * 10 * 10 ^ (6 - (v + 1)) := by ring
          _ = f * 10 ^ (6 - (v + 1)) := by rw [tens]
    · rw [if_neg zero]
      exact ⟨f, w, rfl, positive, small, six, rfl⟩

theorem formatFraction_text {f : Nat} (small : f < 1000000) :
    ∃ fraction : Option FractionText, formatFraction f = fractionBytes fraction ∧ fractionMicros fraction = f := by
  unfold formatFraction
  by_cases positive : 0 < f
  · obtain ⟨f', w, done, more, less, six, value⟩ := @trimFraction_spec 5 _ 6 positive small (le_refl 6)
    have wide : 1 ≤ w := by
      cases w with
      | zero | succ w => omega
    have padding := paddedText_value wide (le_refl w) less six
    have length : (padded f' w).length = w :=
      Nat.le_antisymm (paddedText f' wide (le_refl w) less).most (paddedText f' wide (le_refl w) less).least
    have whole : (padded f' w).take 6 = padded f' w := take_of_length_le (by omega)
    refine ⟨some ⟨padded f' w, (paddedText f' wide (le_refl w) less).all, ?_⟩, ?_, ?_⟩
    · apply length_pos_iff.mp
      omega
    · rw [if_pos (by omega)]
      dsimp only
      rw [done]
      rfl
    · show decimalValue ((padded f' w).take 6) * 10 ^ (6 - ((padded f' w).take 6).length) = f
      rw [whole, length, show decimalValue (padded f' w) = f' from padding, value]
      exact Nat.mul_one f
  · have zero : f = 0 := by omega
    refine ⟨none, ?_, ?_⟩
    · rw [zero]
      rfl
    · exact zero.symm

theorem year_small (d : Date) (low : -106751993 ≤ d.number) (high : d.number ≤ 106751993) :
    -999998 < d.year ∧ d.year < 999999 := by
  have first := d.month_pos
  have last := d.month_le
  have dayLow := d.day_pos
  have dayHigh := d.day_le
  have most := monthLength_le d.year d.month
  have month := daysBeforeMonth_eq d.year first last
  have start : daysBeforeYear 1970 = 719528 := by decide
  have monthLow : 0 ≤ daysBeforeMonth d.year d.month ∧ daysBeforeMonth d.year d.month ≤ 366 := by
    rw [month]
    split
    · omega
    · split <;> omega
  unfold Date.number at low high
  rw [start] at low high
  unfold daysBeforeYear at low high
  omega

def Layout.zone : Layout → Zone
  | .iso8601 => .utc 0x5A (by decide)
  | .postgres => .offset false ⟨⟨ascii "00", by decide +kernel, by decide, by decide⟩, by decide⟩ .none
  | .postgresWithoutZone => .none

theorem Layout.zone_seconds (layout : Layout) : layout.zone.seconds = 0 := by
  cases layout <;> decide

theorem formatYear_text {year : Int} (small : -999998 < year ∧ year < 999999) (bc : Bool) (past : bc = true → year ≤ 0) :
    ∃ (sign : Option Bool) (text : DigitText 4 6),
      formatYear year bc = .ok ((sign.elim [] fun minus => [if minus then cMinus else cPlus]) ++ text.bytes) ∧
      (bc = true → sign = none ∧ 1 ≤ text.value) ∧
      (if bc then 1 - (text.value : Int) else if sign = some true then -(text.value : Int) else text.value) = year := by
  unfold formatYear
  cases bc with
  | true =>
    have before := past rfl
    obtain ⟨n, counted⟩ := Int.eq_ofNat_of_zero_le (show 0 ≤ 1 - year by omega)
    have fits : n < 10 ^ 6 := by omega
    have value := @paddedText_value 4 _ _ (by decide) (by decide) fits (by decide)
    refine ⟨none, paddedText n (by decide) (by decide) fits, ?_, ?_, ?_⟩
    · rw [if_pos rfl, int64_ok (by omega) (by omega), ok_bind, counted]
      rfl
    · intro _
      rw [value]
      exact ⟨rfl, by omega⟩
    · rw [value, if_pos rfl]
      omega
  | false =>
    rw [if_neg Bool.false_ne_true]
    by_cases negative : year < 0
    · obtain ⟨n, counted⟩ := Int.eq_ofNat_of_zero_le (show 0 ≤ -year by omega)
      have fits : n < 10 ^ 6 := by omega
      have value := @paddedText_value 4 _ _ (by decide) (by decide) fits (by decide)
      refine ⟨some true, paddedText n (by decide) (by decide) fits, ?_, ?_, ?_⟩
      · rw [if_pos negative, int64_ok (by omega) (by omega), ok_bind, counted]
        rfl
      · intro impossible
        cases impossible
      · rw [value, if_neg Bool.false_ne_true, if_pos rfl]
        omega
    · obtain ⟨n, counted⟩ := Int.eq_ofNat_of_zero_le (show 0 ≤ year by omega)
      have fits : n < 10 ^ 6 := by omega
      have value := @paddedText_value 4 _ _ (by decide) (by decide) fits (by decide)
      refine ⟨none, paddedText n (by decide) (by decide) fits, ?_, ?_, ?_⟩
      · rw [if_neg negative, counted]
        rfl
      · intro impossible
        cases impossible
      · rw [value, if_neg Bool.false_ne_true, if_neg (by decide)]
        omega

theorem exists_upTo (bound : Nat) {n : Nat} (le : n ≤ bound) (less : n < 100) {v : Int} (same : v = n) :
    ∃ text : UpTo bound, text.bytes = padded v 2 ∧ text.value = n := by
  have value := @paddedText_value 2 2 n (by decide) (by decide) less (by decide)
  exact ⟨⟨paddedText n (by decide) (by decide) less, le_of_eq_of_le value le⟩, by rw [same]; rfl, value⟩

theorem formatCivil_stamp (d : Date) (small : -999998 < d.year ∧ d.year < 999999) (layout : Layout) {time : Nat}
    (less : time < 86400000000) : ∃ stamp : Stamp, stamp.date = d ∧ stamp.clock = time ∧
      formatCivil ⟨d.year, d.month, d.day⟩ time layout = .ok stamp.bytes := by
  have first := d.month_pos
  have last := d.month_le
  have dayLow := d.day_pos
  have dayHigh := d.day_le
  have most := monthLength_le d.year d.month
  have seconds : (time : Int).tdiv microsecondsPerSecond = ((time / 1000000 : Nat) : Int) := rfl
  have micros : (time : Int).tmod microsecondsPerSecond = ((time % 1000000 : Nat) : Int) := rfl
  obtain ⟨fraction, fractionIs, microsIs⟩ := formatFraction_text (f := time % 1000000) (by omega)
  obtain ⟨sign, year, yearIs, unsigned, civil⟩ := formatYear_text small (decide (layout ≠ .iso8601 ∧ d.year ≤ 0))
    (fun bc => (of_decide_eq_true bc).2)
  obtain ⟨month, monthIs, monthValue⟩ := exists_upTo 12 (n := d.month.toNat) (by omega) (by omega) (v := d.month) (by omega)
  obtain ⟨day, dayIs, dayValue⟩ := exists_upTo 31 (n := d.day.toNat) (by omega) (by omega) (v := d.day) (by omega)
  obtain ⟨hour, hourIs, hourValue⟩ := exists_upTo 23 (n := time / 1000000 / 3600) (by omega) (by omega) rfl
  obtain ⟨minute, minuteIs, minuteValue⟩ := exists_upTo 59 (n := time / 1000000 / 60 % 60) (by omega) (by omega) rfl
  obtain ⟨second, secondIs, secondValue⟩ := exists_upTo 59 (n := time / 1000000 % 60) (by omega) (by omega) rfl
  have mark : isTimeMark (if layout = .iso8601 then 0x54 else cSP) = true := by split <;> decide
  refine ⟨⟨sign, year, month.toDigitText, day.toDigitText, if layout = .iso8601 then 0x54 else cSP, hour, minute, second,
    fraction, layout.zone, decide (layout ≠ .iso8601 ∧ d.year ≤ 0), mark, unsigned, ?_, ?_, ?_, ?_⟩, ?_, ?_, ?_⟩
  · rw [monthValue]
    omega
  · rw [monthValue]
    omega
  · rw [dayValue]
    omega
  · rw [civil, dayValue, monthValue, Int.toNat_of_nonneg (by omega), Int.toNat_of_nonneg (by omega)]
    exact dayHigh
  · apply Date.ext
    · exact civil
    · show (month.value : Int) = d.month
      rw [monthValue]
      omega
    · show (day.value : Int) = d.day
      rw [dayValue]
      omega
  · show ((hour.value : Int) * 3600 + minute.value * 60 + second.value - layout.zone.seconds) * 1000000 +
      fractionMicros fraction = time
    rw [hourValue, minuteValue, secondValue, microsIs, layout.zone_seconds]
    omega
  · unfold formatCivil
    dsimp only
    have hourText : padded (((time / 1000000 : Nat) : Int).tdiv 3600) 2 = hour.bytes := hourIs.symm
    have minuteText : padded ((((time / 1000000 : Nat) : Int).tdiv 60).tmod 60) 2 = minute.bytes := minuteIs.symm
    have secondText : padded (((time / 1000000 : Nat) : Int).tmod 60) 2 = second.bytes := secondIs.symm
    rw [yearIs, ok_bind, seconds, micros, fractionIs, ← monthIs, ← dayIs, hourText, minuteText, secondText]
    unfold Stamp.bytes Stamp.signBytes bcBytes
    simp only [append_assoc]
    cases layout <;> rfl

theorem floor_day (us : Int) :
    (us.tdiv microsecondsPerDay - if us.tmod microsecondsPerDay < 0 then 1 else 0) = us / 86400000000 ∧
      (us.tmod microsecondsPerDay + if us.tmod microsecondsPerDay < 0 then microsecondsPerDay else 0) =
        us % 86400000000 := by
  unfold microsecondsPerDay
  rw [Int.tmod_def, Int.tdiv_eq_ediv, show Int.sign 86400000000 = 1 from rfl]
  split <;> split <;> omega

theorem format_stamp {us : Int} (fits : Fits us) (layout : Layout) : ∃ stamp : Stamp,
    format us layout = .ok stamp.bytes ∧ stamp.instant = us ∧ stamp.midnight = us / 86400000000 * 86400000000 := by
  obtain ⟨low, high⟩ := fits
  obtain ⟨d, number⟩ := Date.exists_number (us / 86400000000)
  have small := year_small d (by omega) (by omega)
  have civil : date d.number = .ok ⟨d.year, d.month, d.day⟩ := by
    have gives : Gives (date d.number) (fun r => r = ⟨d.year, d.month, d.day⟩) fun _ => ¬ True := by
      apply gives_date
      intro _
      omega
    obtain ⟨r, done, same⟩ := (gives.mono (fun _ same => same) (fun _ impossible => impossible trivial)).exists_ok
    rw [done, same]
  obtain ⟨stamp, dateIs, clockIs, written⟩ := @formatCivil_stamp d small layout (us % 86400000000).toNat (by omega)
  rw [Int.toNat_of_nonneg (by omega)] at clockIs written
  have midnight : stamp.midnight = us / 86400000000 * 86400000000 := by
    unfold Stamp.midnight
    rw [dateIs, number]
  refine ⟨stamp, ?_, ?_, midnight⟩
  · unfold format
    dsimp only
    rw [(floor_day us).1, (floor_day us).2, int64_ok (by omega) (by omega), ok_bind, int64_ok (by omega) (by omega),
      ok_bind, ← number, civil, ok_bind]
    exact written
  · unfold Stamp.instant
    rw [midnight, clockIs]
    omega

/-- Instants come back as they were written, days and dates are inverse where nothing overflows, and the day of a
month exists. -/
theorem civil_time_round_trip : (∀ us layout, -2 ^ 63 + microsecondsPerDay ≤ us → us < 2 ^ 63 →
      ∃ text, format us layout = .ok text ∧ parse text = .ok us) ∧
    (∀ n civil, date n = .ok civil → 1 ≤ civil.month ∧ civil.month ≤ 12 ∧ 1 ≤ civil.day ∧
      civil.day ≤ daysInMonth civil.year civil.month ∧ ∀ m, days civil.year civil.month civil.day = .ok m → m = n) ∧
    (∀ year month day n, 1 ≤ month → month ≤ 12 → 1 ≤ day → day ≤ daysInMonth year month →
      days year month day = .ok n → ∀ civil, date n = .ok civil → civil = ⟨year, month, day⟩) := by
  have dateOf : ∀ (d : Date) (civil : YMD), date d.number = .ok civil → civil = ⟨d.year, d.month, d.day⟩ :=
    fun d civil done => (gives_date (M := False) d (fun impossible => impossible.elim)).of_ok done
  have daysOf : ∀ (d : Date) (n : Int), days d.year d.month d.day = .ok n → n = d.number :=
    fun d n done => (gives_days (M := False) d (fun impossible => impossible.elim)).of_ok done
  refine ⟨?_, ?_, ?_⟩
  · intro us layout low high
    unfold microsecondsPerDay at low
    obtain ⟨stamp, written, instant, midnight⟩ := @format_stamp us ⟨by omega, high⟩ layout
    refine ⟨stamp.bytes, written, ?_⟩
    have dayFits : Fits stamp.midnight := by
      rw [midnight]
      unfold Fits
      omega
    have fits : Fits stamp.instant := by
      rw [instant]
      unfold Fits
      omega
    rw [parse_stamp, if_pos ⟨dayFits, fits⟩, instant]
  · intro n civil done
    obtain ⟨d, rfl⟩ := Date.exists_number n
    rw [dateOf d civil done]
    refine ⟨d.month_pos, d.month_le, d.day_pos, ?_, ?_⟩
    · rw [daysInMonth_eq]
      exact d.day_le
    · intro m back
      exact daysOf d m back
  · intro year month day n first last low high done civil back
    rw [daysInMonth_eq] at high
    have number := daysOf ⟨year, month, day, first, last, low, high⟩ n done
    rw [number] at back
    exact dateOf _ civil back

/-- The beginning of the epoch as PostgreSQL writes it, and the last day of February 2000. -/
theorem civil_time_round_trip_epoch : (∃ text, format 0 .postgres = .ok text ∧ parse text = .ok 0) ∧
      days 2000 2 29 = .ok 11016 ∧ ∀ civil, date 11016 = .ok civil → civil = ⟨2000, 2, 29⟩ := by
  have number : days 2000 2 29 = .ok 11016 := by decide +kernel
  exact ⟨civil_time_round_trip.1 0 .postgres (by decide) (by decide), number,
    civil_time_round_trip.2.2 2000 2 29 11016 (by decide) (by decide) (by decide) (by decide) number⟩

end AvianCore.CivilTime
