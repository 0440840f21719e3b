import Mathlib

/-!
Bytes as the parsers and writers use them (`Bytes.swift`, `ByteBuffer.swift`): character classes,
case folding, and numbers in decimal and hexadecimal.
-/

namespace AvianCore.Http

abbrev Bytes := List UInt8

def cCR : UInt8 := 13
def cLF : UInt8 := 10
def cSP : UInt8 := 32
def cHT : UInt8 := 9
def cColon : UInt8 := 58
def cQuestion : UInt8 := 63
def cPercent : UInt8 := 37
def cSemicolon : UInt8 := 59
def cComma : UInt8 := 44
def cZero : UInt8 := 48
def cNine : UInt8 := 57
def cLeftBracket : UInt8 := 91
def cRightBracket : UInt8 := 93

def crlf : Bytes := [cCR, cLF]

def ascii (s : String) : Bytes := s.toList.map fun c => UInt8.ofNat c.toNat

/-- Why a head or a body is refused. -/
inductive ParseError
  | badRequestLine
  | badStatusLine
  | badHeader
  | badVersion
  | uriTooLong
  | headTooLarge
  | tooManyHeaders
  | conflictingFraming
  | unsupportedTransferEncoding
  | badChunk
  | duplicateHost
deriving DecidableEq, Repr

def hexValue (c : UInt8) : Int :=
  if 48 ≤ c ∧ c ≤ 57 then (c - 48).toNat
  else if 97 ≤ c ∧ c ≤ 102 then (c - 87).toNat
  else if 65 ≤ c ∧ c ≤ 70 then (c - 55).toNat
  else -1

/-- The digits of a number in a base, the lowest first, as the loops of the writers take them off. -/
def lowDigits (base : Nat) : Nat → Nat → List Nat
  | 0, _ => []
  | fuel + 1, v => if 0 < v then v % base :: lowDigits base fuel (v / base) else []

def hexDigit (d : Nat) : UInt8 := if d < 10 then cZero + UInt8.ofNat d else 87 + UInt8.ofNat d

/-- `writeHex`: sixteen digits are room for every 64-bit number. -/
def writeHex (v : Nat) : Bytes := if v = 0 then [cZero] else ((lowDigits 16 16 v).map hexDigit).reverse

def decimalDigit (d : Nat) : UInt8 := cZero + UInt8.ofNat d

/-- `writeDecimal`, of a number that is not negative. -/
def writeDecimal (v : Nat) : Bytes :=
  if v = 0 then [cZero] else ((lowDigits 10 20 v).map decimalDigit).reverse

variable {base : Nat}

theorem lowDigits_lt (positive : 0 < base) (fuel v : Nat) : ∀ d ∈ lowDigits base fuel v, d < base := by
  induction fuel generalizing v with
  | zero =>
    intro d member
    cases member
  | succ fuel ih =>
    intro d member
    unfold lowDigits at member
    by_cases more : 0 < v
    · rw [if_pos more] at member
      rcases List.mem_cons.mp member with rfl | later
      · exact Nat.mod_lt _ positive
      · exact ih _ d later
    · rw [if_neg more] at member
      cases member

theorem ofDigits_lowDigits {fuel v : Nat} (fits : v < base ^ fuel) : Nat.ofDigits base (lowDigits base fuel v) = v := by
  induction fuel generalizing v with
  | zero =>
    have zero : v = 0 := by simpa using fits
    subst zero
    rfl
  | succ fuel ih =>
    unfold lowDigits
    by_cases more : 0 < v
    · have rest : v / base < base ^ fuel := by
        apply Nat.div_lt_of_lt_mul
        rw [Nat.pow_succ, Nat.mul_comm] at fits
        exact fits
      rw [if_pos more, Nat.ofDigits_cons, ih rest]
      exact Nat.mod_add_div v base
    rw [if_neg more]
    have zero : v = 0 := by omega
    subst zero
    rfl

theorem length_lowDigits_le {fuel v n : Nat} (fits : v < base ^ n) : (lowDigits base fuel v).length ≤ n := by
  induction fuel generalizing v n with
  | zero => exact Nat.zero_le _
  | succ fuel ih =>
    unfold lowDigits
    by_cases more : 0 < v
    · rw [if_pos more]
      cases n with
      | zero =>
        have zero : v = 0 := by simpa using fits
        omega
      | succ n =>
        have rest : v / base < base ^ n := by
          apply Nat.div_lt_of_lt_mul
          rw [Nat.pow_succ, Nat.mul_comm] at fits
          exact fits
        have shorter := ih rest
        rw [List.length_cons]
        omega
    · rw [if_neg more]
      exact Nat.zero_le _

theorem foldl_reverse_digits (digits : List Nat) :
    digits.reverse.foldl (fun v d => v * base + d) 0 = Nat.ofDigits base digits := by
  rw [List.foldl_reverse]
  induction digits with
  | nil => rfl
  | cons d rest ih =>
    rw [List.foldr_cons, ih, Nat.ofDigits_cons]
    ring

theorem hexValue_hexDigit {d : Nat} (less : d < 16) : hexValue (hexDigit d) = d := by
  interval_cases d <;> decide

theorem hexDigit_ne {d : Nat} (less : d < 16) : hexDigit d ≠ cCR ∧ hexDigit d ≠ cSemicolon := by
  interval_cases d <;> decide

theorem takeWhile_cut {P : UInt8 → Bool} {text rest : Bytes} (all : ∀ c ∈ text, P c = true)
    (stop : ∀ c ∈ rest.head?, P c = false) : (text ++ rest).takeWhile P = text := by
  rw [List.takeWhile_append_of_pos all]
  cases rest with
  | nil => simp
  | cons c rest => rw [List.takeWhile_cons_of_neg (by simp [stop c rfl]), List.append_nil]

end AvianCore.Http
