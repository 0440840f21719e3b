import AvianCore.Http.Forwarded
import AvianCore.Http.ReadBack
import AvianCore.Time.Civil

/-!
HTTP dates: the writer (`av_http_date` in `avian_sys.c`) and the reader (`HTTPDate` in
`ResponseCachePolicy.swift`). What is written names the right weekday and reads back, and so do the two obsolete
spellings.
-/

namespace AvianCore.Http
open AvianCore.Lib AvianCore.CivilTime List Int

def kDays : List Bytes := ["Sun", "Mon", "Tue", "Wed", "Thu", "Fri", "Sat"].map ascii

def kMonths : List Bytes :=
  ["Jan", "Feb", "Mar", "Apr", "May", "Jun", "Jul", "Aug", "Sep", "Oct", "Nov", "Dec"].map ascii

def put2 (v : Int) : Bytes := [UInt8.ofInt (48 + v.tdiv 10), UInt8.ofInt (48 + v.tmod 10)]

def put4 (v : Int) : Bytes :=
  [UInt8.ofInt (48 + (v.tdiv 1000).tmod 10), UInt8.ofInt (48 + (v.tdiv 100).tmod 10),
    UInt8.ofInt (48 + (v.tdiv 10).tmod 10), UInt8.ofInt (48 + v.tmod 10)]

/-- `av_http_date`: the bytes written. -/
def avHttpDate (t : Int) : Bytes :=
  let late := t.tmod 86400 < 0
  let days := if late then t.tdiv 86400 - 1 else t.tdiv 86400
  let secs := if late then t.tmod 86400 + 86400 else t.tmod 86400
  let wday := (days + 4).tmod 7
  let wday := if wday < 0 then wday + 7 else wday
  let z := days + 719468
  let era := (if 0 ≤ z then z else z - 146096).tdiv 146097
  let doe := z - era * 146097
  let yoe := (doe - doe.tdiv 1460 + doe.tdiv 36524 - doe.tdiv 146096).tdiv 365
  let y := yoe + era * 400
  let doy := doe - (365 * yoe + yoe.tdiv 4 - yoe.tdiv 100)
  let mp := (5 * doy + 2).tdiv 153
  let d := doy - (153 * mp + 2).tdiv 5 + 1
  let m := mp + if mp < 10 then 3 else -9
  let y := if m ≤ 2 then y + 1 else y
  let yy := y.bmod (2 ^ 32)
  kDays.getD wday.toNat [] ++ ascii ", " ++ put2 d ++ ascii " " ++ kMonths.getD (m - 1).toNat [] ++ ascii " " ++
    put4 yy ++ ascii " " ++ put2 (secs.tdiv 3600) ++ ascii ":" ++ put2 ((secs.tdiv 60).tmod 60) ++ ascii ":" ++
    put2 (secs.tmod 60) ++ ascii " GMT"

def number : Nat → Nat → Bytes → Option Nat
  | value, 0, _ => some value
  | _, _ + 1, [] => none
  | value, digits + 1, ch :: rest =>
    if isDigit ch then number (value * 10 + (ch - cZero).toNat) digits rest else none

def byteIn (s : Bytes) (i : Nat) : UInt8 := s.getD i 0

def timeOfDay (p : Bytes) : Option Nat :=
  if byteIn p 2 = cColon ∧ byteIn p 5 = cColon then do
    let h ← number 0 2 p
    let m ← number 0 2 (p.drop 3)
    let sec ← number 0 2 (p.drop 6)
    if h < 24 ∧ m < 60 ∧ sec ≤ 60 then some (h * 3600 + m * 60 + sec) else none
  else none

def isGMT (p : Bytes) : Bool := p.take 3 = ascii "GMT"

def monthNumber (p : Bytes) : Option Nat := (kMonths.findIdx? (· = p.take 3)).map (· + 1)

def daysSinceEpoch (year month day : Int) : Int :=
  let y := if month ≤ 2 then year - 1 else year
  let era := (if 0 ≤ y then y else y - 399).tdiv 400
  let yearOfEra := y - era * 400
  let shiftedMonth := (month + 9).tmod 12
  let dayOfYear := (153 * shiftedMonth + 2).tdiv 5 + day - 1
  let dayOfEra := yearOfEra * 365 + yearOfEra.tdiv 4 - yearOfEra.tdiv 100 + dayOfYear
  era * 146097 + dayOfEra - 719468

/-- What a date says, before it is checked. -/
structure DateFields where
  year : Nat
  month : Nat
  day : Nat
  clock : Nat
deriving DecidableEq, Repr

/-- `Sun, 06 Nov 1994 08:49:37 GMT` -/
def readIMF (s : Bytes) : Option DateFields :=
  if byteIn s 4 = cSP ∧ byteIn s 7 = cSP ∧ byteIn s 11 = cSP ∧ byteIn s 16 = cSP ∧ byteIn s 25 = cSP ∧
      isGMT (s.drop 26) then do
    let d ← number 0 2 (s.drop 5)
    let m ← monthNumber (s.drop 8)
    let y ← number 0 4 (s.drop 12)
    let t ← timeOfDay (s.drop 17)
    some ⟨y, m, d, t⟩
  else none

/-- `Sun Nov  6 08:49:37 1994` -/
def readAsctime (s : Bytes) : Option DateFields :=
  if byteIn s 7 = cSP ∧ byteIn s 10 = cSP ∧ byteIn s 19 = cSP then do
    let m ← monthNumber (s.drop 4)
    let d ← (if byteIn s 8 = cSP then number 0 1 (s.drop 9) else number 0 2 (s.drop 8))
    let t ← timeOfDay (s.drop 11)
    let y ← number 0 4 (s.drop 20)
    some ⟨y, m, d, t⟩
  else none

def cDash : UInt8 := 45

/-- ` 06-Nov-94 08:49:37 GMT`. A two-digit year is placed in this century or the last. -/
def readDashed (r : Bytes) : Option DateFields :=
  if byteIn r 0 = cSP ∧ byteIn r 3 = cDash ∧ byteIn r 7 = cDash ∧ byteIn r 10 = cSP ∧ byteIn r 19 = cSP ∧
      isGMT (r.drop 20) then do
    let d ← number 0 2 (r.drop 1)
    let m ← monthNumber (r.drop 4)
    let yy ← number 0 2 (r.drop 8)
    let t ← timeOfDay (r.drop 11)
    some ⟨if yy < 70 then 2000 + yy else 1900 + yy, m, d, t⟩
  else none

/-- `Sunday, 06-Nov-94 08:49:37 GMT` -/
def readRFC850 (s : Bytes) : Option DateFields :=
  let comma := ((s.take 10).takeWhile (· ≠ cComma)).length
  if 6 ≤ comma ∧ comma < s.length ∧ s.length = comma + 24 then readDashed (s.drop (comma + 1)) else none

/-- `HTTPDate.parse`. -/
def parseDate (p : Bytes) : Option Int := do
  let s := trim p
  let fields ←
    (if s.length = 29 ∧ byteIn s 3 = cComma then readIMF s
    else if s.length = 24 ∧ byteIn s 3 = cSP then readAsctime s
    else readRFC850 s)
  if 1 ≤ fields.day ∧ fields.day ≤ 31 then
    some (daysSinceEpoch fields.year fields.month fields.day * 86400 + fields.clock)
  else none

def shortName : Weekday → Bytes
  | .sunday => ascii "Sun"
  | .monday => ascii "Mon"
  | .tuesday => ascii "Tue"
  | .wednesday => ascii "Wed"
  | .thursday => ascii "Thu"
  | .friday => ascii "Fri"
  | .saturday => ascii "Sat"

def longName : Weekday → Bytes
  | .sunday => ascii "Sunday"
  | .monday => ascii "Monday"
  | .tuesday => ascii "Tuesday"
  | .wednesday => ascii "Wednesday"
  | .thursday => ascii "Thursday"
  | .friday => ascii "Friday"
  | .saturday => ascii "Saturday"

def monthName (month : Int) : Bytes := kMonths.getD (month - 1).toNat []

def two (n : Nat) : Bytes := [decimalDigit (n / 10), decimalDigit (n % 10)]

def four (n : Nat) : Bytes :=
  [decimalDigit (n / 1000 % 10), decimalDigit (n / 100 % 10), decimalDigit (n / 10 % 10), decimalDigit (n % 10)]

def spaced (n : Nat) : Bytes := if n < 10 then [cSP, decimalDigit n] else two n

def clockText (clock : Nat) : Bytes :=
  two (clock / 3600) ++ [cColon] ++ two (clock / 60 % 60) ++ [cColon] ++ two (clock % 60)

/-- `Sun, 06 Nov 1994 08:49:37 GMT` -/
def imfDate (d : Date) (clock : Nat) : Bytes :=
  shortName (weekday d.number) ++ ascii ", " ++ two d.day.toNat ++ ascii " " ++ monthName d.month ++ ascii " " ++
    four d.year.toNat ++ ascii " " ++ clockText clock ++ ascii " GMT"

/-- ` 06-Nov-94 08:49:37 GMT` -/
def dashedDate (d : Date) (clock : Nat) : Bytes :=
  ascii " " ++ two d.day.toNat ++ ascii "-" ++ monthName d.month ++ ascii "-" ++ two (d.year.toNat % 100) ++
    ascii " " ++ clockText clock ++ ascii " GMT"

/-- `Sunday, 06-Nov-94 08:49:37 GMT` -/
def rfc850Date (d : Date) (clock : Nat) : Bytes := longName (weekday d.number) ++ cComma :: dashedDate d clock

/-- `Sun Nov  6 08:49:37 1994` -/
def asctimeDate (d : Date) (clock : Nat) : Bytes :=
  shortName (weekday d.number) ++ ascii " " ++ monthName d.month ++ ascii " " ++ spaced d.day.toNat ++ ascii " " ++
    clockText clock ++ ascii " " ++ four d.year.toNat

theorem number_digit {d : Nat} (less : d < 10) (value digits : Nat) (rest : Bytes) :
    number value (digits + 1) (decimalDigit d :: rest) = number (value * 10 + d) digits rest := by
  rw [number, if_pos (decimalDigit_digit less).1, (decimalDigit_digit less).2]

theorem number_two {n : Nat} (less : n < 100) (rest : Bytes) : number 0 2 (two n ++ rest) = some n := by
  unfold two
  rw [cons_append, cons_append, number_digit (by omega), number_digit (by omega), number]
  congr 1
  omega

theorem number_four {n : Nat} (less : n < 10000) (rest : Bytes) : number 0 4 (four n ++ rest) = some n := by
  unfold four
  rw [cons_append, cons_append, cons_append, cons_append, number_digit (by omega),
    number_digit (by omega), number_digit (by omega), number_digit (by omega), number]
  congr 1
  omega

theorem timeOfDay_clockText {clock : Nat} (less : clock < 86400) (rest : Bytes) :
    timeOfDay (clockText clock ++ rest) = some clock := by
  have hours : number 0 2 (clockText clock ++ rest) = some (clock / 3600) :=
    number_two (by omega) ([cColon] ++ two (clock / 60 % 60) ++ [cColon] ++ two (clock % 60) ++ rest)
  have minutes : number 0 2 ((clockText clock ++ rest).drop 3) = some (clock / 60 % 60) :=
    number_two (by omega) ([cColon] ++ two (clock % 60) ++ rest)
  have seconds : number 0 2 ((clockText clock ++ rest).drop 6) = some (clock % 60) := number_two (by omega) rest
  unfold timeOfDay
  rw [if_pos ⟨rfl, rfl⟩, hours, minutes, seconds]
  simp only [Option.bind_eq_bind, Option.bind_some]
  rw [if_pos (by omega)]
  congr 1
  omega

theorem monthName_three {month : Int} (first : 1 ≤ month) (last : month ≤ 12) :
    ∃ a b c, monthName month = [a, b, c] ∧ monthNumber [a, b, c] = some month.toNat := by
  interval_cases month <;> exact ⟨_, _, _, rfl, by decide⟩

theorem shortName_three (w : Weekday) : ∃ a b c, shortName w = [a, b, c] ∧ isBlank a = false := by
  cases w <;> exact ⟨_, _, _, rfl, by decide⟩

theorem longName_plain (w : Weekday) : 6 ≤ (longName w).length ∧ (longName w).length ≤ 9 ∧
    (∀ c ∈ longName w, decide (c ≠ cComma) = true) ∧ ∀ c ∈ (longName w).head?, isBlank c = false := by
  cases w <;> decide +kernel

theorem trim_bounded {first last : UInt8} {middle : Bytes} (front : isBlank first = false)
    (back : isBlank last = false) : trim (first :: (middle ++ [last])) = first :: (middle ++ [last]) := by
  have begins : (first :: (middle ++ [last])).dropWhile isBlank = first :: (middle ++ [last]) :=
    dropWhile_cons_of_neg (by rw [front]; exact Bool.false_ne_true)
  rw [trim, begins, ← cons_append]
  apply rdropWhile_concat_neg
  rw [back]
  exact Bool.false_ne_true

theorem daysSinceEpoch_eq (d : Date) : daysSinceEpoch d.year d.month d.day = d.number := by
  have shifted := shiftMonth_range d
  have first := d.month_pos
  have last := d.month_le
  have day := d.day_pos
  have month : (d.month + 9).tmod 12 = shiftMonth d.month := by
    rw [tmod_eq_emod_of_nonneg (by omega)]
    unfold shiftMonth
    split <;> omega
  have march : (if d.month ≤ 2 then d.year - 1 else d.year) = marchYear d.year d.month := rfl
  have year : marchYear d.year d.month - marchYear d.year d.month / 400 * 400 = marchYear d.year d.month % 400 := by
    omega
  rw [← civilDays_eq]
  unfold daysSinceEpoch civilDays dayOfEra dayOfYear
  dsimp only
  rw [march, tdiv_lowered_400, year, month, tdiv_eq_ediv_of_nonneg (show 0 ≤ marchYear d.year d.month % 400 by omega),
    tdiv_eq_ediv_of_nonneg (show 0 ≤ marchYear d.year d.month % 400 by omega),
    tdiv_eq_ediv_of_nonneg (show 0 ≤ 153 * shiftMonth d.month + 2 by omega)]

theorem parseDate_fields (d : Date) {year month day clock : Nat} (sameYear : (year : Int) = d.year)
    (sameMonth : (month : Int) = d.month) (sameDay : (day : Int) = d.day) :
    (if 1 ≤ day ∧ day ≤ 31 then some (daysSinceEpoch year month day * 86400 + clock) else none) =
      some (d.number * 86400 + clock) := by
  have low := d.day_pos
  have high := d.day_le
  have most := monthLength_le d.year d.month
  rw [if_pos (by omega), sameYear, sameMonth, sameDay, daysSinceEpoch_eq]

section
variable (d : Date) {clock : Nat} (less : clock < 86400)
include less

theorem parseDate_imf (past : 0 ≤ d.year) (future : d.year ≤ 9999) :
    parseDate (imfDate d clock) = some (d.number * 86400 + clock) := by
  have low := d.day_pos
  have high := d.day_le
  have most := monthLength_le d.year d.month
  have first := d.month_pos
  obtain ⟨w, w', w'', weekdayIs, front⟩ := shortName_three (weekday d.number)
  obtain ⟨m, m', m'', monthIs, month⟩ := monthName_three d.month_pos d.month_le
  have text : imfDate d clock = w :: (([w', w''] ++ ascii ", " ++ two d.day.toNat ++ ascii " " ++ [m, m', m''] ++
      ascii " " ++ four d.year.toNat ++ ascii " " ++ clockText clock ++ ascii " GM") ++ [84]) := by
    unfold imfDate
    rw [weekdayIs, monthIs]
    rfl
  have trimmed : trim (imfDate d clock) = imfDate d clock := by rw [text, trim_bounded front (by decide)]
  have read : readIMF (imfDate d clock) = some ⟨d.year.toNat, d.month.toNat, d.day.toNat, clock⟩ := by
    rw [text]
    unfold readIMF
    rw [if_pos ⟨rfl, rfl, rfl, rfl, rfl, rfl⟩]
    have day : number 0 2 (two d.day.toNat ++ (ascii " " ++ [m, m', m''] ++ ascii " " ++ four d.year.toNat ++
        ascii " " ++ clockText clock ++ ascii " GMT")) = some d.day.toNat := number_two (by omega) _
    have year : number 0 4 (four d.year.toNat ++ (ascii " " ++ clockText clock ++ ascii " GMT")) =
        some d.year.toNat := number_four (by omega) _
    have time := timeOfDay_clockText less (ascii " GMT")
    change (do
      let day ← number 0 2 (two d.day.toNat ++ (ascii " " ++ [m, m', m''] ++ ascii " " ++ four d.year.toNat ++
        ascii " " ++ clockText clock ++ ascii " GMT"))
      let month ← monthNumber [m, m', m'']
      let year ← number 0 4 (four d.year.toNat ++ (ascii " " ++ clockText clock ++ ascii " GMT"))
      let time ← timeOfDay (clockText clock ++ ascii " GMT")
      some (⟨year, month, day, time⟩ : DateFields)) = _
    rw [day, month, year, time]
    rfl
  have layout : (imfDate d clock).length = 29 ∧ byteIn (imfDate d clock) 3 = cComma := by
    rw [text]
    exact ⟨rfl, rfl⟩
  unfold parseDate
  dsimp only
  rw [trimmed, if_pos layout, read]
  exact parseDate_fields d (by dsimp only; omega) (by dsimp only; omega) (by dsimp only; omega)

theorem readDashed_date (past : 1970 ≤ d.year) (future : d.year ≤ 2069) :
    readDashed (dashedDate d clock) = some ⟨d.year.toNat, d.month.toNat, d.day.toNat, clock⟩ := by
  have low := d.day_pos
  have high := d.day_le
  have most := monthLength_le d.year d.month
  obtain ⟨m, m', m'', monthIs, month⟩ := monthName_three d.month_pos d.month_le
  have day : number 0 2 (two d.day.toNat ++ (ascii "-" ++ [m, m', m''] ++ ascii "-" ++ two (d.year.toNat % 100) ++
      ascii " " ++ clockText clock ++ ascii " GMT")) = some d.day.toNat := number_two (by omega) _
  have year : number 0 2 (two (d.year.toNat % 100) ++ (ascii " " ++ clockText clock ++ ascii " GMT")) =
      some (d.year.toNat % 100) := number_two (by omega) _
  have time := timeOfDay_clockText less (ascii " GMT")
  have century : (if d.year.toNat % 100 < 70 then 2000 + d.year.toNat % 100 else 1900 + d.year.toNat % 100) =
      d.year.toNat := by
    split <;> omega
  unfold readDashed dashedDate
  rw [monthIs, if_pos ⟨rfl, rfl, rfl, rfl, rfl, rfl⟩]
  change (do
    let day ← number 0 2 (two d.day.toNat ++ (ascii "-" ++ [m, m', m''] ++ ascii "-" ++ two (d.year.toNat % 100) ++
      ascii " " ++ clockText clock ++ ascii " GMT"))
    let month ← monthNumber [m, m', m'']
    let year ← number 0 2 (two (d.year.toNat % 100) ++ (ascii " " ++ clockText clock ++ ascii " GMT"))
    let time ← timeOfDay (clockText clock ++ ascii " GMT")
    some (⟨if year < 70 then 2000 + year else 1900 + year, month, day, time⟩ : DateFields)) = _
  rw [day, month, year, time]
  simp only [Option.bind_eq_bind, Option.bind_some]
  rw [century]

omit less in
theorem dashedDate_shape : ∃ front, dashedDate d clock = front ++ [84] ∧ front.length = 22 := by
  obtain ⟨m, m', m'', monthIs, -⟩ := monthName_three d.month_pos d.month_le
  refine ⟨ascii " " ++ two d.day.toNat ++ ascii "-" ++ [m, m', m''] ++ ascii "-" ++ two (d.year.toNat % 100) ++
    ascii " " ++ clockText clock ++ ascii " GM", ?_, rfl⟩
  unfold dashedDate
  rw [monthIs]
  rfl

theorem parseDate_rfc850 (past : 1970 ≤ d.year) (future : d.year ≤ 2069) :
    parseDate (rfc850Date d clock) = some (d.number * 86400 + clock) := by
  have low := d.day_pos
  have first := d.month_pos
  have read := readDashed_date d less past future
  obtain ⟨long, short, plain, front⟩ := longName_plain (weekday d.number)
  obtain ⟨dashed, ends, length⟩ := @dashedDate_shape d clock
  unfold rfc850Date
  rw [ends] at read ⊢
  generalize longName (weekday d.number) = name at long short plain front
  have trimmed : trim (name ++ cComma :: (dashed ++ [84])) = name ++ cComma :: (dashed ++ [84]) := by
    obtain ⟨a, others, rfl⟩ := exists_cons_of_length_pos (show 0 < name.length by omega)
    have text : a :: others ++ cComma :: (dashed ++ [84]) = a :: ((others ++ cComma :: dashed) ++ [84]) := by simp
    rw [text, trim_bounded (front a rfl) (by decide)]
  have total : (name ++ cComma :: (dashed ++ [84])).length = name.length + 24 := by simp [length]
  -- the name is cut at the comma, which stands among the first ten bytes
  have comma : (((name ++ cComma :: (dashed ++ [84])).take 10).takeWhile (· ≠ cComma)).length = name.length := by
    obtain ⟨more, ten⟩ : ∃ more, 10 - name.length = more + 1 := ⟨9 - name.length, by omega⟩
    have stop : ∀ c ∈ (cComma :: (dashed ++ [84]).take more).head?, decide (c ≠ cComma) = false := by
      intro c head
      cases head
      rfl
    rw [take_append, take_of_length_le (by omega), ten, take_succ_cons, takeWhile_cut plain stop]
  have behind : (name ++ cComma :: (dashed ++ [84])).drop (name.length + 1) = dashed ++ [84] := by
    rw [drop_append, drop_of_length_le (by omega)]
    simp
  unfold parseDate
  dsimp only
  rw [trimmed, if_neg (by omega), if_neg (by omega)]
  unfold readRFC850
  dsimp only
  rw [comma, if_pos (by omega), behind, read]
  exact parseDate_fields d (by dsimp only; omega) (by dsimp only; omega) (by dsimp only; omega)

omit less in
theorem spaced_two {n : Nat} (few : n < 100) : ∃ a b, spaced n = [a, b] ∧
    ∀ rest, (if a = cSP then number 0 1 (b :: rest) else number 0 2 (a :: b :: rest)) = some n := by
  unfold spaced
  by_cases small : n < 10
  · rw [if_pos small]
    refine ⟨cSP, decimalDigit n, rfl, ?_⟩
    intro rest
    rw [if_pos rfl, number_digit small, number]
    congr 1
    omega
  rw [if_neg small]
  refine ⟨_, _, rfl, ?_⟩
  intro rest
  have digit := (decimalDigit_digit (show n / 10 < 10 by omega)).1
  have solid : decimalDigit (n / 10) ≠ cSP := isDigit_ne digit (by decide)
  rw [if_neg solid]
  exact number_two few rest

theorem parseDate_asctime (past : 1970 ≤ d.year) (future : d.year ≤ 2069) :
    parseDate (asctimeDate d clock) = some (d.number * 86400 + clock) := by
  have low := d.day_pos
  have high := d.day_le
  have most := monthLength_le d.year d.month
  have first := d.month_pos
  obtain ⟨w, w', w'', weekdayIs, front⟩ := shortName_three (weekday d.number)
  obtain ⟨m, m', m'', monthIs, month⟩ := monthName_three d.month_pos d.month_le
  obtain ⟨a, b, dayIs, day⟩ := spaced_two (n := d.day.toNat) (by omega)
  have last := (decimalDigit_digit (show d.year.toNat % 10 < 10 by omega)).1
  have solid : isBlank (decimalDigit (d.year.toNat % 10)) = false := by
    have sp := isDigit_ne last (by decide : isDigit cSP = false)
    have ht := isDigit_ne last (by decide : isDigit cHT = false)
    simp [isBlank, sp, ht]
  have text : asctimeDate d clock = w :: (([w', w''] ++ ascii " " ++ [m, m', m''] ++ ascii " " ++ [a, b] ++
      ascii " " ++ clockText clock ++ ascii " " ++ [decimalDigit (d.year.toNat / 1000 % 10),
        decimalDigit (d.year.toNat / 100 % 10), decimalDigit (d.year.toNat / 10 % 10)]) ++
          [decimalDigit (d.year.toNat % 10)]) := by
    unfold asctimeDate
    rw [weekdayIs, monthIs, dayIs]
    rfl
  have trimmed : trim (asctimeDate d clock) = asctimeDate d clock := by rw [text, trim_bounded front solid]
  have read : readAsctime (asctimeDate d clock) = some ⟨d.year.toNat, d.month.toNat, d.day.toNat, clock⟩ := by
    have time := timeOfDay_clockText less (ascii " " ++ four d.year.toNat)
    have year : number 0 4 (four d.year.toNat ++ []) = some d.year.toNat := number_four (by omega) _
    rw [text]
    unfold readAsctime
    rw [if_pos ⟨rfl, rfl, rfl⟩]
    change (do
      let month ← monthNumber [m, m', m'']
      let day ← (if a = cSP then
          number 0 1 (b :: (ascii " " ++ clockText clock ++ ascii " " ++ four d.year.toNat))
        else number 0 2 (a :: b :: (ascii " " ++ clockText clock ++ ascii " " ++ four d.year.toNat)))
      let time ← timeOfDay (clockText clock ++ (ascii " " ++ four d.year.toNat))
      let year ← number 0 4 (four d.year.toNat ++ [])
      some (⟨year, month, day, time⟩ : DateFields)) = _
    rw [day, month, time, year]
    rfl
  have layout : (asctimeDate d clock).length = 24 ∧ byteIn (asctimeDate d clock) 3 = cSP := by
    rw [text]
    exact ⟨rfl, rfl⟩
  unfold parseDate
  dsimp only
  rw [trimmed, if_neg (by omega), if_pos layout, read]
  exact parseDate_fields d (by dsimp only; omega) (by dsimp only; omega) (by dsimp only; omega)

end

theorem char_digit {k : Nat} (less : k < 10) : UInt8.ofInt (48 + (k : Int)) = decimalDigit k := by
  interval_cases k <;> decide

theorem put2_eq {v : Nat} (less : v < 100) : put2 v = two v := by
  have tens : (v : Int).tdiv 10 = ((v / 10 : Nat) : Int) := rfl
  have ones : (v : Int).tmod 10 = ((v % 10 : Nat) : Int) := rfl
  unfold put2 two
  rw [tens, ones, char_digit (by omega), char_digit (by omega)]

theorem put4_eq (v : Nat) : put4 v = four v := by
  have thousands : ((v : Int).tdiv 1000).tmod 10 = ((v / 1000 % 10 : Nat) : Int) := rfl
  have hundreds : ((v : Int).tdiv 100).tmod 10 = ((v / 100 % 10 : Nat) : Int) := rfl
  have tens : ((v : Int).tdiv 10).tmod 10 = ((v / 10 % 10 : Nat) : Int) := rfl
  have ones : (v : Int).tmod 10 = ((v % 10 : Nat) : Int) := rfl
  unfold put4 four
  rw [thousands, hundreds, tens, ones, char_digit (by omega), char_digit (by omega), char_digit (by omega),
    char_digit (by omega)]

theorem put2_toNat {v : Int} (nonneg : 0 ≤ v) (less : v < 100) : put2 v = two v.toNat := by
  obtain ⟨n, rfl⟩ := eq_ofNat_of_zero_le nonneg
  exact put2_eq (by omega)

theorem put4_toNat {v : Int} (nonneg : 0 ≤ v) : put4 v = four v.toNat := by
  obtain ⟨n, rfl⟩ := eq_ofNat_of_zero_le nonneg
  exact put4_eq n

theorem kDays_weekday (n : Int) : kDays.getD ((n + 4) % 7).toNat [] = shortName (weekday n) := by
  have low := emod_nonneg (n + 4) (show (7 : Int) ≠ 0 by decide)
  have high := emod_lt_of_pos (n + 4) (show (0 : Int) < 7 by decide)
  unfold weekday
  generalize (n + 4) % 7 = k at low high
  interval_cases k <;> rfl

theorem floor_split (t : Int) : (if t.tmod 86400 < 0 then t.tdiv 86400 - 1 else t.tdiv 86400) = t / 86400 ∧
    (if t.tmod 86400 < 0 then t.tmod 86400 + 86400 else t.tmod 86400) = t % 86400 := by
  rw [tmod_def, tdiv_eq_ediv, show Int.sign 86400 = 1 from rfl]
  split <;> split <;> omega

theorem avHttpDate_eq {t : Int} {d : Date} (day : t / 86400 = d.number) (past : 0 ≤ d.year) (fits : d.year ≤ 9999) :
    avHttpDate t = imfDate d (t % 86400).toNat := by
  have first := d.month_pos
  have last := d.month_le
  have dayLow := d.day_pos
  have dayHigh := d.day_le
  have most := monthLength_le d.year d.month
  have inEra := inEra d
  have yearLow := inEra.year_nonneg
  have doyLow := inEra.day_nonneg
  have range := inEra.dayOfEra_range
  have secsLow : 0 ≤ t % 86400 := by omega
  have secsHigh : t % 86400 < 86400 := by omega
  -- the steps of the writer, each as the calendar has it
  have wday : (if (d.number + 4).tmod 7 < 0 then (d.number + 4).tmod 7 + 7 else (d.number + 4).tmod 7) =
      (d.number + 4) % 7 := by
    rw [tmod_def, tdiv_eq_ediv, show Int.sign 7 = 1 from rfl]
    split <;> split <;> omega
  have doe : d.number + 719468 - (d.number + 719468) / 146097 * 146097 =
      dayOfEra (marchYear d.year d.month % 400) (dayOfYear (shiftMonth d.month) d.day) := by
    rw [← (number_inEra d).2]
    omega
  have yoe := inEra.yearOfEra_eq
  have doy : dayOfEra (marchYear d.year d.month % 400) (dayOfYear (shiftMonth d.month) d.day) -
      (365 * (marchYear d.year d.month % 400) + marchYear d.year d.month % 400 / 4 -
        marchYear d.year d.month % 400 / 100) = dayOfYear (shiftMonth d.month) d.day := by
    unfold dayOfEra
    omega
  have month : shiftMonth d.month + (if shiftMonth d.month < 10 then 3 else -9) = d.month := by
    unfold shiftMonth
    split <;> split <;> omega
  have dayIs : dayOfYear (shiftMonth d.month) d.day - (153 * shiftMonth d.month + 2) / 5 + 1 = d.day := by
    unfold dayOfYear
    omega
  have year : (if d.month ≤ 2 then marchYear d.year d.month % 400 + marchYear d.year d.month / 400 * 400 + 1
      else marchYear d.year d.month % 400 + marchYear d.year d.month / 400 * 400) = d.year := by
    unfold marchYear
    split <;> omega
  have shifted := shiftMonth_range d
  have months := dayOfYear_month d
  unfold yearOfEra at yoe
  unfold avHttpDate
  dsimp only
  rw [(floor_split t).1, (floor_split t).2, day, wday, tdiv_lowered_146097, doe, (number_inEra d).1]
  generalize dayOfEra (marchYear d.year d.month % 400) (dayOfYear (shiftMonth d.month) d.day) = n at doe yoe doy range
  rw [tdiv_eq_ediv_of_nonneg range.1, tdiv_eq_ediv_of_nonneg range.1, tdiv_eq_ediv_of_nonneg range.1,
    tdiv_eq_ediv_of_nonneg (show 0 ≤ n - n / 1460 + n / 36524 - n / 146096 by omega), yoe,
    tdiv_eq_ediv_of_nonneg yearLow, tdiv_eq_ediv_of_nonneg yearLow, doy,
    tdiv_eq_ediv_of_nonneg (show 0 ≤ 5 * dayOfYear (shiftMonth d.month) d.day + 2 by omega), months, month,
    tdiv_eq_ediv_of_nonneg (show 0 ≤ 153 * shiftMonth d.month + 2 by omega), dayIs, year, kDays_weekday]
  have dayText : put2 d.day = two d.day.toNat := put2_toNat (by omega) (by omega)
  have yearText : put4 (d.year.bmod (2 ^ 32)) = four d.year.toNat := by
    rw [bmod_eq_of_le (by omega) (by omega), put4_toNat past]
  have hours : put2 ((t % 86400).tdiv 3600) = two ((t % 86400).toNat / 3600) := by
    rw [tdiv_eq_ediv_of_nonneg secsLow, put2_toNat (by omega) (by omega)]
    congr 1
    omega
  have minutes : put2 (((t % 86400).tdiv 60).tmod 60) = two ((t % 86400).toNat / 60 % 60) := by
    rw [tdiv_eq_ediv_of_nonneg secsLow, tmod_eq_emod_of_nonneg (by omega), put2_toNat (by omega) (by omega)]
    congr 1
    omega
  have seconds : put2 ((t % 86400).tmod 60) = two ((t % 86400).toNat % 60) := by
    rw [tmod_eq_emod_of_nonneg secsLow, put2_toNat (by omega) (by omega)]
    congr 1
    omega
  rw [dayText, yearText, hours, minutes, seconds]
  unfold imfDate clockText monthName
  simp only [append_assoc]
  rfl

/-- What is written of every second of the years 0 to 9999 has 29 bytes, names the weekday and reads back, and
for the years 1970 to 2069 the two obsolete spellings read back too. -/
theorem http_date_round_trip (t : Int) (d : Date) (day : t / 86400 = d.number) :
    (0 ≤ d.year ∧ d.year ≤ 9999 → (avHttpDate t).length = 29 ∧
      (avHttpDate t).take 3 = shortName (weekday d.number) ∧ parseDate (avHttpDate t) = some t) ∧
    (1970 ≤ d.year ∧ d.year ≤ 2069 → parseDate (rfc850Date d (t % 86400).toNat) = some t ∧
      parseDate (asctimeDate d (t % 86400).toNat) = some t) := by
  have less : (t % 86400).toNat < 86400 := by omega
  have whole : d.number * 86400 + ((t % 86400).toNat : Int) = t := by omega
  constructor
  · intro years
    obtain ⟨w, w', w'', weekdayIs, -⟩ := shortName_three (weekday d.number)
    obtain ⟨m, m', m'', monthIs, -⟩ := monthName_three d.month_pos d.month_le
    have read := parseDate_imf d less years.1 years.2
    rw [avHttpDate_eq day years.1 years.2, read, whole]
    unfold imfDate
    rw [weekdayIs, monthIs]
    exact ⟨rfl, rfl, rfl⟩
  · intro years
    have rfc850 := parseDate_rfc850 d less years.1 years.2
    have asctime := parseDate_asctime d less years.1 years.2
    rw [whole] at rfc850 asctime
    exact ⟨rfc850, asctime⟩

/-- The sixth of November 1994. -/
theorem http_date_round_trip_1994 : parseDate (avHttpDate 784111777) = some 784111777 ∧
      parseDate (rfc850Date ⟨1994, 11, 6, by decide, by decide, by decide, by decide⟩ 31777) = some 784111777 := by
  have day : (784111777 : Int) / 86400 =
      Date.number ⟨1994, 11, 6, by decide, by decide, by decide, by decide⟩ := by decide +kernel
  have both := http_date_round_trip 784111777 _ day
  exact ⟨(both.1 (by decide)).2.2, (both.2 (by decide)).1⟩

end AvianCore.Http
