import Mathlib

/-!
Segments of a sequence: the list of its values from one index up to another.
-/

namespace AvianCore.Lib
variable {α : Type}

/-- The values of a sequence from `low` up to `high`. -/
def segment (S : Nat → α) (low high : Nat) : List α := (List.range' low (high - low)).map S

variable (S : Nat → α)

@[simp] theorem length_segment (low high : Nat) : (segment S low high).length = high - low := by simp [segment]

theorem drop_segment (low high n : Nat) : (segment S low high).drop n = segment S (low + n) high := by
  unfold segment
  rw [← List.map_drop, List.drop_range', Nat.mul_one, Nat.sub_add_eq]

theorem segment_append {low middle high : Nat} (first : low ≤ middle) (second : middle ≤ high) :
    segment S low middle ++ segment S middle high = segment S low high := by
  unfold segment
  have joined := List.range'_append_1 (s := low) (m := middle - low) (n := high - middle)
  have meets : low + (middle - low) = middle := by omega
  have whole : (middle - low) + (high - middle) = high - low := by omega
  rw [meets, whole] at joined
  rw [← List.map_append, joined]

theorem take_segment {low high n : Nat} (fits : low + n ≤ high) :
    (segment S low high).take n = segment S low (low + n) := by
  rw [← segment_append S (Nat.le_add_right low n) fits]
  apply List.take_left'
  simp

end AvianCore.Lib
