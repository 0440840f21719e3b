import Mathlib

/-!
Numbers as bits, the highest first.
-/

namespace AvianCore.Lib
open Nat List

def bitsOf : Nat → Nat → List Bool
  | 0, _ => []
  | k + 1, n => n.testBit k :: bitsOf k n

def valueOf (bits : List Bool) : Nat := bits.foldl (fun v b => 2 * v + b.toNat) 0

@[simp] theorem length_bitsOf (k n : Nat) : (bitsOf k n).length = k := by
  induction k with
  | zero => rfl
  | succ k ih => rw [bitsOf, length_cons, ih]

variable (bits : List Bool)

theorem valueOf_concat (b : Bool) : valueOf (bits ++ [b]) = 2 * valueOf bits + b.toNat := by
  rw [valueOf, foldl_append]
  rfl

theorem valueOf_lt : valueOf bits < 2 ^ bits.length := by
  induction bits using List.reverseRecOn with
  | nil => exact one_pos
  | append_singleton bits b ih =>
    have bit := Bool.toNat_lt b
    rw [valueOf_concat, length_append, length_singleton, pow_succ]
    omega

theorem bitsOf_mod {k m : Nat} (le : k ≤ m) (n : Nat) : bitsOf k (n % 2 ^ m) = bitsOf k n := by
  induction k with
  | zero => rfl
  | succ k ih =>
    rw [bitsOf, bitsOf, ih (by omega), testBit_mod_two_pow]
    simp [show k < m by omega]

theorem bitsOf_add (a b n : Nat) : bitsOf (a + b) n = bitsOf a (n / 2 ^ b) ++ bitsOf b n := by
  induction a with
  | zero => rw [zero_add, bitsOf, nil_append]
  | succ a ih => rw [show a + 1 + b = (a + b) + 1 by omega, bitsOf, bitsOf, ih, testBit_div_two_pow, cons_append]

theorem bitsOf_valueOf : bitsOf bits.length (valueOf bits) = bits := by
  induction bits using List.reverseRecOn with
  | nil => rfl
  | append_singleton bits b ih =>
    have half : (2 * valueOf bits + b.toNat) / 2 ^ 1 = valueOf bits := by
      have bit := Bool.toNat_lt b
      omega
    have last : bitsOf 1 (2 * valueOf bits + b.toNat) = [b] := by
      rw [bitsOf, bitsOf, testBit_zero]
      cases b with
      | true | false => simp
    rw [valueOf_concat, length_append, length_singleton, bitsOf_add, half, ih, last]

theorem valueOf_bitsOf {k n : Nat} (fits : n < 2 ^ k) : valueOf (bitsOf k n) = n := by
  induction k generalizing n with
  | zero =>
    have zero : n = 0 := by simpa using fits
    rw [zero]
    rfl
  | succ k ih =>
    have half : n / 2 ^ 1 < 2 ^ k := by
      rw [pow_succ] at fits
      omega
    have bit : (n.testBit 0).toNat = n % 2 := by
      rw [testBit_zero]
      rcases mod_two_eq_zero_or_one n with even | odd
      · simp [even]
      · simp [odd]
    rw [bitsOf_add k 1, show bitsOf 1 n = [n.testBit 0] from rfl, valueOf_concat, ih half, bit]
    omega

theorem bitsOf_inj {k m n : Nat} (mFits : m < 2 ^ k) (nFits : n < 2 ^ k) (same : bitsOf k m = bitsOf k n) : m = n := by
  rw [← valueOf_bitsOf mFits, same, valueOf_bitsOf nFits]

theorem valueOf_take {k n j : Nat} (fits : n < 2 ^ k) (le : j ≤ k) :
    valueOf ((bitsOf k n).take j) = n / 2 ^ (k - j) := by
  have split : bitsOf k n = bitsOf j (n / 2 ^ (k - j)) ++ bitsOf (k - j) n := by rw [← bitsOf_add, add_sub_of_le le]
  have small : n / 2 ^ (k - j) < 2 ^ j := by
    apply Nat.div_lt_of_lt_mul
    rw [← Nat.pow_add, Nat.sub_add_cancel le]
    exact fits
  rw [split, take_left' (length_bitsOf _ _), valueOf_bitsOf small]

theorem bitsOf_ones (k : Nat) : bitsOf k (2 ^ k - 1) = List.replicate k true := by
  apply eq_replicate_iff.mpr
  refine ⟨length_bitsOf _ _, ?_⟩
  have ones : ∀ j ≤ k, ∀ b ∈ bitsOf j (2 ^ k - 1), b = true := by
    intro j
    induction j with
    | zero =>
      intro _ b member
      cases member
    | succ j ih =>
      intro le b member
      rcases mem_cons.mp member with rfl | later
      · rw [testBit_two_pow_sub_one]
        simp [show j < k by omega]
      · exact ih (by omega) b later
  exact ones k (le_refl _)

theorem valueOf_replicate (k : Nat) : valueOf (List.replicate k true) = 2 ^ k - 1 := by
  have positive : 0 < 2 ^ k := Nat.two_pow_pos k
  rw [← bitsOf_ones, valueOf_bitsOf (by omega)]

theorem eq_replicate_of_valueOf {bits : List Bool} (ones : valueOf bits = 2 ^ bits.length - 1) :
    bits = List.replicate bits.length true := by
  rw [← bitsOf_ones, ← ones, bitsOf_valueOf]

end AvianCore.Lib
