import Mathlib

/-!
Lists that come from two others, each in its own order.
-/

namespace AvianCore.Lib

/-- The last list holds the elements of the first two, each of them in order. -/
inductive Interleaving {α : Type} : List α → List α → List α → Prop
  | nil : Interleaving [] [] []
  | left {a : α} {xs ys zs : List α} : Interleaving xs ys zs → Interleaving (a :: xs) ys (a :: zs)
  | right {a : α} {xs ys zs : List α} : Interleaving xs ys zs → Interleaving xs (a :: ys) (a :: zs)

namespace Interleaving
variable {α : Type} {xs ys zs : List α}

theorem snoc_left (merged : Interleaving xs ys zs) (a : α) : Interleaving (xs ++ [a]) ys (zs ++ [a]) := by
  induction merged with
  | nil => exact .left .nil
  | left _ ih => exact .left ih
  | right _ ih => exact .right ih

theorem snoc_right (merged : Interleaving xs ys zs) (a : α) : Interleaving xs (ys ++ [a]) (zs ++ [a]) := by
  induction merged with
  | nil => exact .right .nil
  | left _ ih => exact .left ih
  | right _ ih => exact .right ih

theorem append_right (merged : Interleaving xs ys zs) (more : List α) : Interleaving xs (ys ++ more) (zs ++ more) := by
  induction more generalizing ys zs with
  | nil =>
    rw [List.append_nil, List.append_nil]
    exact merged
  | cons a more ih =>
    have later := ih (merged.snoc_right a)
    rw [List.append_assoc, List.append_assoc] at later
    exact later

theorem perm (merged : Interleaving xs ys zs) : zs.Perm (xs ++ ys) := by
  induction merged with
  | nil => exact .nil
  | left _ ih => exact ih.cons _
  | right _ ih => exact (ih.cons _).trans List.perm_middle.symm

end Interleaving

end AvianCore.Lib
