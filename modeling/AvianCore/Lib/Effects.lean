import Mathlib

/-!
Computations that may stop, and what can be said of their results.
-/

namespace AvianCore.Lib

section Gives
variable {α β ε : Type} {x : Except ε α} {Q Q' : α → Prop} {E E' : ε → Prop}

/-- A result meets `Q`, and an error meets `E`. -/
def Gives (x : Except ε α) (Q : α → Prop) (E : ε → Prop) : Prop :=
  match x with
  | .ok a => Q a
  | .error e => E e

variable {f : α → Except ε β}

@[simp] theorem ok_bind {a : α} : (.ok a >>= f : Except ε β) = f a := rfl

@[simp] theorem gives_bind {R : β → Prop} : Gives (x >>= f) R E ↔ Gives x (fun a => Gives (f a) R E) E := by
  cases x with
  | ok a | error e => exact Iff.rfl

theorem Gives.mono (gives : Gives x Q E) (results : ∀ a, Q a → Q' a) (errors : ∀ e, E e → E' e) : Gives x Q' E' := by
  cases x with
  | ok a => exact results a gives
  | error e => exact errors e gives

theorem Gives.imp (gives : Gives x Q E) (results : ∀ a, Q a → Q' a) : Gives x Q' E :=
  gives.mono results fun _ error => error

theorem Gives.bind {R : β → Prop} (gives : Gives x Q E) (each : ∀ a, Q a → Gives (f a) R E) : Gives (x >>= f) R E :=
  gives_bind.mpr (gives.imp each)

theorem Gives.of_ok {a : α} (gives : Gives x Q E) (done : x = .ok a) : Q a := by
  rw [done] at gives
  exact gives

theorem Gives.exists_ok (gives : Gives x Q fun _ => False) : ∃ a, x = .ok a ∧ Q a := by
  cases x with
  | ok a => exact ⟨a, rfl, gives⟩
  | error e => exact False.elim gives

/-- Checked 64-bit arithmetic. -/
@[irreducible] def checked (trap : ε) (x : Int) : Except ε Int :=
  if -2 ^ 63 ≤ x ∧ x < 2 ^ 63 then .ok x else .error trap

theorem gives_checked {trap : ε} {M : Prop} {x : Int} (inRange : M → -2 ^ 63 ≤ x ∧ x < 2 ^ 63) :
    Gives (checked trap x) (fun y => y = x) fun _ => ¬M := by
  unfold checked
  by_cases fits : -2 ^ 63 ≤ x ∧ x < 2 ^ 63
  · rw [if_pos fits]
    exact rfl
  · rw [if_neg fits]
    exact fun small => fits (inRange small)

end Gives

end AvianCore.Lib
