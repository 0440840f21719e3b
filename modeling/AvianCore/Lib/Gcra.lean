import Mathlib

/-!
The generic cell rate algorithm. One number is kept, the theoretical arrival time: a cell is let
through when that is at most the tolerance ahead of now, and each cell that is let through moves it one
emission interval on.
-/

namespace AvianCore.Lib.Gcra

/-- How long a cell has to wait, 0 when it is let through. -/
def delay (tolerance tat now : Nat) : Nat := max tat now - now - tolerance

def next (emission tolerance tat now : Nat) : Nat :=
  if delay tolerance tat now = 0 then max tat now + emission else tat

def admitted (emission tolerance : Nat) : Nat → List Nat → List Nat
  | _, [] => []
  | tat, now :: rest =>
    if delay tolerance tat now = 0 then
      now :: admitted emission tolerance (next emission tolerance tat now) rest
    else admitted emission tolerance tat rest

variable {emission tolerance tat tat' now : Nat}

theorem delay_eq_zero : delay tolerance tat now = 0 ↔ tat ≤ now + tolerance := by
  unfold delay
  omega

theorem delay_congr (same : max tat now = max tat' now) : delay tolerance tat now = delay tolerance tat' now := by
  unfold delay
  rw [same]

theorem delay_least (tolerance tat now wait : Nat) :
    delay tolerance tat (now + wait) = 0 ↔ delay tolerance tat now ≤ wait := by
  unfold delay
  omega

def after (emission tolerance tat : Nat) (cells : List Nat) : Nat := cells.foldl (next emission tolerance) tat

theorem admitted_concat (emission tolerance tat : Nat) (cells : List Nat) (now : Nat) :
    admitted emission tolerance tat (cells ++ [now]) = admitted emission tolerance tat cells ++
      if delay tolerance (after emission tolerance tat cells) now = 0 then [now] else [] := by
  induction cells generalizing tat with
  | nil =>
    rw [List.nil_append, admitted]
    rfl
  | cons cell rest ih =>
    have moved : after emission tolerance tat (cell :: rest) =
      after emission tolerance (next emission tolerance tat cell) rest := rfl
    rw [List.cons_append, admitted, admitted, moved]
    by_cases through : delay tolerance tat cell = 0
    · rw [if_pos through, if_pos through, ih]
      rfl
    · have stays : next emission tolerance tat cell = tat := by rw [next, if_neg through]
      rw [if_neg through, if_neg through, ih, stays]

theorem admitted_window (emission tolerance tat first last : Nat) (cells : List Nat) (n : Nat)
    (count : ((admitted emission tolerance tat cells).filter fun t => decide (first ≤ t ∧ t ≤ last)).length = n + 1) :
    max tat first + n * emission ≤ last + tolerance := by
  induction cells generalizing tat n with
  | nil => simp [admitted] at count
  | cons now rest ih =>
    unfold admitted at count
    by_cases through : delay tolerance tat now = 0
    · rw [if_pos through] at count
      have moved : next emission tolerance tat now = max tat now + emission := by rw [next, if_pos through]
      have near := delay_eq_zero.mp through
      by_cases inside : first ≤ now ∧ now ≤ last
      · rw [List.filter_cons_of_pos (by simpa using inside), List.length_cons] at count
        cases n with
        | zero => omega
        | succ n =>
          have later := ih (next emission tolerance tat now) n (by omega)
          rw [moved] at later
          rw [Nat.add_mul, Nat.one_mul]
          omega
      · rw [List.filter_cons_of_neg (by simpa using inside)] at count
        have later := ih (next emission tolerance tat now) n count
        rw [moved] at later
        omega
    · rw [if_neg through] at count
      exact ih tat n count

theorem length_admitted_le (positive : 0 < emission) (tolerance tat first last : Nat) (cells : List Nat) :
    ((admitted emission tolerance tat cells).filter
      fun t => decide (first ≤ t ∧ t ≤ last)).length ≤ (last - first + tolerance) / emission + 1 := by
  cases count : ((admitted emission tolerance tat cells).filter fun t => decide (first ≤ t ∧ t ≤ last)).length with
  | zero => exact Nat.zero_le _
  | succ n =>
    have window := admitted_window emission tolerance tat first last cells n count
    apply Nat.succ_le_succ
    rw [Nat.le_div_iff_mul_le positive]
    omega

end AvianCore.Lib.Gcra
