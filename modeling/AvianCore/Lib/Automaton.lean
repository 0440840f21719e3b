import Mathlib

/-!
Machines that read one symbol at a time, put symbols out, and may halt. What a machine does with a
string does not depend on how the string is cut.
-/

namespace AvianCore.Lib
variable {σ β ο ω : Type}

/-- What a machine does with a symbol: it goes on, or it halts, having used so many of the symbols
from this one on. -/
inductive Move (σ ο ω : Type)
  | on (next : σ) (out : List ο)
  | halt (last : σ) (used : Nat) (answer : ω)

/-- What a machine has done with a string: where it is, what it put out, how many symbols it used,
and its answer when it halted. -/
structure Trip (σ ο ω : Type) where
  state : σ
  out : List ο
  used : Nat
  answer : Option ω

variable (step : σ → β → Move σ ο ω)

def travel : σ → List β → Trip σ ο ω
  | s, [] => ⟨s, [], 0, none⟩
  | s, b :: rest =>
    match step s b with
    | .halt last used answer => ⟨last, [], used, some answer⟩
    | .on next out =>
      let later := travel next rest
      ⟨later.state, out ++ later.out, later.used + 1, later.answer⟩

/-- Going on from where a trip has ended, unless the machine has halted. -/
def Trip.followed (trip : Trip σ ο ω) (further : σ → Trip σ ο ω) : Trip σ ο ω :=
  match trip.answer with
  | some _ => trip
  | none =>
    let later := further trip.state
    ⟨later.state, trip.out ++ later.out, trip.used + later.used, later.answer⟩

@[simp] theorem travel_nil (s : σ) : travel step s [] = ⟨s, [], 0, none⟩ := rfl

variable {step}

theorem travel_cons_on {s next : σ} {b : β} {out : List ο} (moves : step s b = .on next out) (rest : List β) :
    travel step s (b :: rest) = ⟨(travel step next rest).state, out ++ (travel step next rest).out,
      (travel step next rest).used + 1, (travel step next rest).answer⟩ := by
  simp only [travel, moves]

theorem travel_cons_halt {s last : σ} {b : β} {used : Nat} {answer : ω}
    (moves : step s b = .halt last used answer) (rest : List β) :
    travel step s (b :: rest) = ⟨last, [], used, some answer⟩ := by
  simp only [travel, moves]

theorem travel_congr {s s' : σ} {b : β} (same : step s b = step s' b) (rest : List β) :
    travel step s (b :: rest) = travel step s' (b :: rest) := by
  simp only [travel, same]

theorem travel_append (s : σ) (front back : List β) :
    travel step s (front ++ back) = (travel step s front).followed fun state => travel step state back := by
  induction front generalizing s with
  | nil => simp [Trip.followed]
  | cons b rest ih =>
    cases moves : step s b with
    | halt last used answer =>
      rw [List.cons_append, travel_cons_halt moves, travel_cons_halt moves]
      rfl
    | on next out =>
      rw [List.cons_append, travel_cons_on moves, travel_cons_on moves, ih next]
      unfold Trip.followed
      cases halted : (travel step next rest).answer with
      | some answer => simp [halted]
      | none =>
        simp only [List.append_assoc, Trip.mk.injEq, true_and, and_true]
        omega

def Trip.after (trip : Trip σ ο ω) (out : List ο) (used : Nat) : Trip σ ο ω :=
  ⟨trip.state, out ++ trip.out, used + trip.used, trip.answer⟩

theorem travel_append_on {s next : σ} {front : List β} {out : List ο} {used : Nat}
    (goes : travel step s front = ⟨next, out, used, none⟩) (back : List β) :
    travel step s (front ++ back) = (travel step next back).after out used := by
  rw [travel_append, goes]
  rfl

theorem Trip.after_one (trip : Trip σ ο ω) (out : List ο) :
    trip.after out 1 = ⟨trip.state, out ++ trip.out, trip.used + 1, trip.answer⟩ := by
  rw [after, Nat.add_comm]

theorem Trip.after_after (trip : Trip σ ο ω) (out more : List ο) (used : Nat) :
    (⟨(trip.after more used).state, out ++ (trip.after more used).out,
      (trip.after more used).used + 1, (trip.after more used).answer⟩ : Trip σ ο ω) =
        trip.after (out ++ more) (used + 1) := by
  simp only [after, List.append_assoc, Trip.mk.injEq, true_and, and_true]
  omega

end AvianCore.Lib
