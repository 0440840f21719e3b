import Mathlib

/-!
Variable-length integers and the bounds-checked reader built on them. A reader
holds the bytes not yet read and the offset of the first of them.
-/

namespace AvianCore.Quic
open Nat

abbrev Bytes := List UInt8

/-- The wrapping operators of a 64-bit word. -/
def addWrapping (a b : Nat) : Nat := (a + b) % 2 ^ 64
def subWrapping (a b : Nat) : Nat := (a + 2 ^ 64 - b % 2 ^ 64) % 2 ^ 64

def quicVarintLength (value : Nat) : Nat :=
  if value < 0x40 then 1
  else if value < 0x4000 then 2
  else if value < 0x40000000 then 4
  else 8

def quicVarintMax : Nat := 0x3FFFFFFFFFFFFFFF

/-- The low byte of `value >> shift`. -/
def byteAt (value shift : Nat) : UInt8 := UInt8.ofNat (value >>> shift)

def quicWriteVarint (value : Nat) : Bytes :=
  if value < 0x40 then [byteAt value 0]
  else if value < 0x4000 then [byteAt value 8 ||| 0x40, byteAt value 0]
  else if value < 0x40000000 then
    [byteAt value 24 ||| 0x80, byteAt value 16, byteAt value 8, byteAt value 0]
  else
    [byteAt value 56 ||| 0xC0, byteAt value 48, byteAt value 40, byteAt value 32,
      byteAt value 24, byteAt value 16, byteAt value 8, byteAt value 0]

/-- The encoding into exactly `width` bytes, for a length that is filled in later. -/
def quicWriteVarintWidth (value width : Nat) : Bytes :=
  match width with
  | 1 => [byteAt value 0]
  | 2 => [byteAt value 8 ||| 0x40, byteAt value 0]
  | 4 => [byteAt value 24 ||| 0x80, byteAt value 16, byteAt value 8, byteAt value 0]
  | _ =>
    [byteAt value 56 ||| 0xC0, byteAt value 48, byteAt value 40, byteAt value 32,
      byteAt value 24, byteAt value 16, byteAt value 8, byteAt value 0]

def quicWriteUInt16BE (value : Nat) : Bytes := [byteAt value 8, byteAt value 0]

def quicWriteUInt32BE (value : Nat) : Bytes := [byteAt value 24, byteAt value 16, byteAt value 8, byteAt value 0]

def quicWriteUInt64BE (value : Nat) : Bytes :=
  [byteAt value 56, byteAt value 48, byteAt value 40, byteAt value 32,
    byteAt value 24, byteAt value 16, byteAt value 8, byteAt value 0]

variable (value : Nat)

@[simp] theorem length_quicWriteVarint : (quicWriteVarint value).length = quicVarintLength value := by
  unfold quicWriteVarint quicVarintLength
  split_ifs <;> rfl

theorem quicVarintLength_pos : 1 ≤ quicVarintLength value := by
  unfold quicVarintLength
  split_ifs <;> omega

theorem quicVarintLength_le : quicVarintLength value ≤ 8 := by
  unfold quicVarintLength
  split_ifs <;> omega

theorem quicVarintLength_le_two (small : value < 0x4000) : quicVarintLength value ≤ 2 := by
  unfold quicVarintLength
  split_ifs <;> omega

theorem quicVarintLength_le_four (small : value < 0x40000000) : quicVarintLength value ≤ 4 := by
  unfold quicVarintLength
  split_ifs <;> omega

/-- The number a run of bytes spells, most significant first, after `value`. -/
def bigEndian (value : Nat) (bytes : Bytes) : Nat := bytes.foldl (fun sum byte => sum * 256 + byte.toNat) value

theorem bigEndian_lt (value bound : Nat) (bytes : Bytes) (small : value < bound) :
    bigEndian value bytes < bound * 256 ^ bytes.length := by
  induction bytes generalizing value bound with
  | nil => simpa [bigEndian] using small
  | cons byte rest ih =>
    have below := byte.toNat_lt
    have next := ih (value * 256 + byte.toNat) (bound * 256) (by omega)
    simpa only [bigEndian, List.foldl_cons, List.length_cons, pow_succ, mul_assoc, mul_comm, mul_left_comm] using next

structure QUICReader where
  rest : Bytes
  offset : Nat := 0
  deriving DecidableEq, Repr

namespace QUICReader

def remaining (r : QUICReader) : Nat := r.rest.length

def isEmpty (r : QUICReader) : Bool := r.rest.isEmpty

def advance (r : QUICReader) (n : Nat) : QUICReader := ⟨r.rest.drop n, r.offset + n⟩

def byte (r : QUICReader) : Option (UInt8 × QUICReader) :=
  match r.rest with
  | [] => none
  | b :: _ => some (b, r.advance 1)

def varint (r : QUICReader) : Option (Nat × QUICReader) :=
  match r.rest with
  | [] => none
  | first :: tail =>
    let width := 1 <<< (first.toNat >>> 6)
    if r.rest.length < width then none
    else some (bigEndian (first.toNat &&& 0x3F) (tail.take (width - 1)), r.advance width)

def varintAsInt (r : QUICReader) : Option (Nat × QUICReader) := do
  let (value, r) ← r.varint
  if value ≤ 2 ^ 63 - 1 then some (value, r) else none

/-- Borrows `n` bytes and advances past them. -/
def take (r : QUICReader) (n : Nat) : Option (Bytes × QUICReader) :=
  if r.rest.length < n then none else some (r.rest.take n, r.advance n)

def skip (r : QUICReader) (n : Nat) : Option QUICReader :=
  if r.rest.length < n then none else some (r.advance n)

def fixed (r : QUICReader) (width : Nat) : Option (Nat × QUICReader) :=
  if r.rest.length < width then none
  else some (bigEndian 0 (r.rest.take width), r.advance width)

def uint16 (r : QUICReader) : Option (Nat × QUICReader) := r.fixed 2

def uint32 (r : QUICReader) : Option (Nat × QUICReader) := r.fixed 4

/-- A cursor that never moves backwards: what is left of `r` was left before. -/
def Within (later earlier : QUICReader) : Prop := later.rest.length ≤ earlier.rest.length

theorem Within.trans {a b c : QUICReader} (first : a.Within b) (second : b.Within c) :
    a.Within c := le_trans first second

@[simp] theorem length_advance (r : QUICReader) (n : Nat) : (r.advance n).rest.length = r.rest.length - n := by
  simp [advance]

theorem width_pos (first : UInt8) : 1 ≤ 1 <<< (first.toNat >>> 6) := by
  rw [shiftLeft_eq, one_mul]
  exact Nat.one_le_two_pow

variable {r later : QUICReader} {value : Nat}

theorem varint_shrinks (read : r.varint = some (value, later)) : later.rest.length < r.rest.length := by
  unfold varint at read
  split at read
  · simp at read
  next first tail shape =>
    simp only at read
    split_ifs at read with short
    simp only [Option.some.injEq, Prod.mk.injEq] at read
    obtain ⟨-, rfl⟩ := read
    have positive := width_pos first
    have nonempty : r.rest.length = tail.length + 1 := by simp [shape]
    rw [length_advance]
    omega

theorem varint_lt (read : r.varint = some (value, later)) : value < 2 ^ 62 := by
  unfold varint at read
  split at read
  · simp at read
  next first tail shape =>
    simp only at read
    split_ifs at read with short
    simp only [Option.some.injEq, Prod.mk.injEq] at read
    obtain ⟨rfl, -⟩ := read
    have top : first.toNat &&& 0x3F < 64 := by
      rw [show (0x3F : Nat) = 2 ^ 6 - 1 by decide, and_two_pow_sub_one_eq_mod]
      exact mod_lt _ (by decide)
    have bounded := bigEndian_lt _ 64 (tail.take (1 <<< (first.toNat >>> 6) - 1)) top
    have few : (tail.take (1 <<< (first.toNat >>> 6) - 1)).length ≤ 7 := by
      have byte := first.toNat_lt
      have index : first.toNat >>> 6 ≤ 3 := by
        rw [shiftRight_eq_div_pow]
        omega
      have width : 1 <<< (first.toNat >>> 6) ≤ 8 := by
        rw [shiftLeft_eq, one_mul]
        calc
          _ ≤ 2 ^ 3 := Nat.pow_le_pow_right (by decide) index
          _ = 8 := by decide
      simp only [List.length_take]
      omega
    calc
      _ < 64 * 256 ^ (tail.take (1 <<< (first.toNat >>> 6) - 1)).length := bounded
      _ ≤ 64 * 256 ^ 7 := Nat.mul_le_mul_left _ (Nat.pow_le_pow_right (by decide) few)
      _ = 2 ^ 62 := by decide

theorem varintAsInt_varint (read : r.varintAsInt = some (value, later)) : r.varint = some (value, later) := by
  unfold varintAsInt at read
  cases plain : r.varint with
  | none => simp [plain] at read
  | some pair =>
    obtain ⟨number, after⟩ := pair
    simp only [plain, Option.bind_eq_bind, Option.bind_some] at read
    split_ifs at read
    simpa using read

theorem take_within {n : Nat} {bytes : Bytes} (read : r.take n = some (bytes, later)) : later.Within r := by
  unfold take at read
  split_ifs at read
  simp only [Option.some.injEq, Prod.mk.injEq] at read
  obtain ⟨-, rfl⟩ := read
  simp [Within]

theorem skip_within {n : Nat} (read : r.skip n = some later) : later.Within r := by
  unfold skip at read
  split_ifs at read
  simp only [Option.some.injEq] at read
  subst read
  simp [Within]

theorem byte_within {b : UInt8} (read : r.byte = some (b, later)) : later.Within r := by
  unfold byte at read
  split at read
  · simp at read
  simp only [Option.some.injEq, Prod.mk.injEq] at read
  obtain ⟨-, rfl⟩ := read
  simp [Within]

theorem varint_within (read : r.varint = some (value, later)) : later.Within r := (varint_shrinks read).le

end QUICReader
end AvianCore.Quic
