import Mathlib

/-!
Machine words of 64 bits as naturals that are reduced where arithmetic can wrap, and sizes that are found by
doubling a first one.
-/

namespace AvianCore.Lib

/-- What 64-bit arithmetic keeps of a number. -/
def word (n : Nat) : Nat := n % 2 ^ 64

theorem word_eq {n : Nat} (fits : n < 2 ^ 64) : word n = n := Nat.mod_eq_of_lt fits

def doubleWhile (again : Nat → Bool) : Nat → Nat → Nat
  | 0, n => n
  | fuel + 1, n => if again n then doubleWhile again fuel (n * 2) else n

theorem doubleWhile_eq (again : Nat → Bool) (fuel n : Nat) : ∃ k, doubleWhile again fuel n = n * 2 ^ k := by
  induction fuel generalizing n with
  | zero => exact ⟨0, by simp [doubleWhile]⟩
  | succ fuel ih =>
    unfold doubleWhile
    by_cases asked : again n = true
    · rw [if_pos asked]
      obtain ⟨k, reached⟩ := ih (n * 2)
      exact ⟨k + 1, by rw [reached, Nat.pow_succ]; ring⟩
    · rw [if_neg asked]
      exact ⟨0, by simp⟩

end AvianCore.Lib
