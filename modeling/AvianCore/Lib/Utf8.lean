import Mathlib

/-!
UTF-8: a character is one to four bytes, of which all but the first have six of its bits.
-/

namespace AvianCore.Lib

/-- The high bits of a number in a first byte, and so many more bytes with six bits each. -/
def sixes (base : Nat) : Nat → Nat → List UInt8
  | 0, n => [UInt8.ofNat (base + n)]
  | more + 1, n => sixes base more (n / 64) ++ [UInt8.ofNat (0x80 + n % 64)]

def utf8 (c : Char) : List UInt8 :=
  if c.toNat < 0x80 then sixes 0 0 c.toNat
  else if c.toNat < 0x800 then sixes 0xC0 1 c.toNat
  else if c.toNat < 0x10000 then sixes 0xE0 2 c.toNat
  else sixes 0xF0 3 c.toNat

def WellFormed (bytes : List UInt8) : Prop := ∃ text : List Char, bytes = text.flatMap utf8

theorem WellFormed.nil : WellFormed [] := ⟨[], rfl⟩

theorem WellFormed.single (c : Char) : WellFormed (utf8 c) := ⟨[c], by simp⟩

theorem WellFormed.append {front back : List UInt8} (first : WellFormed front) (second : WellFormed back) :
    WellFormed (front ++ back) := by
  obtain ⟨text, rfl⟩ := first
  obtain ⟨text', rfl⟩ := second
  exact ⟨text ++ text', List.flatMap_append.symm⟩

theorem sixes_split (base more n k : Nat) : ∃ rest, sixes base (more + k) n = sixes base more (n / 64 ^ k) ++ rest := by
  induction k generalizing n with
  | zero => exact ⟨[], by simp⟩
  | succ k ih =>
    obtain ⟨rest, split⟩ := ih (n / 64)
    rw [Nat.div_div_eq_div_mul, ← Nat.pow_succ'] at split
    exact ⟨rest ++ [UInt8.ofNat (0x80 + n % 64)], by rw [← Nat.add_assoc, sixes, split, List.append_assoc]⟩

theorem char_valid (c : Char) : c.toNat ≤ 0x10FFFF ∧ (c.toNat < 0xD800 ∨ 0xDFFF < c.toNat) := by
  have valid : c.toNat < 0xD800 ∨ (0xDFFF < c.toNat ∧ c.toNat < 0x110000) := c.valid
  omega

/-- The bytes of a character are those of Lean's own encoding. -/
theorem utf8_eq_utf8EncodeChar (c : Char) : utf8 c = String.utf8EncodeChar c := by
  have most := (char_valid c).1
  have same : c.val.toNat = c.toNat := rfl
  unfold utf8 String.utf8EncodeChar
  simp only [same]
  split_ifs <;> try omega
  · simp [sixes]
  all_goals simp only [sixes, List.cons_append, List.nil_append, List.cons.injEq, and_true]
  · exact ⟨congrArg _ (by omega), congrArg _ (by omega)⟩
  · exact ⟨congrArg _ (by omega), congrArg _ (by omega), congrArg _ (by omega)⟩
  · exact ⟨congrArg _ (by omega), congrArg _ (by omega), congrArg _ (by omega), congrArg _ (by omega)⟩

theorem exists_char {n : Nat} (most : n ≤ 0x10FFFF) (apart : n < 0xD800 ∨ 0xDFFF < n) : ∃ c : Char, c.toNat = n := by
  have valid : n.isValidChar := by
    unfold Nat.isValidChar
    omega
  refine ⟨Char.ofNat n, ?_⟩
  rw [Char.ofNat, dif_pos valid]
  rfl

end AvianCore.Lib
