import Mathlib

/-!
Machines that keep a log which only grows. A condition on the entries of the log that holds at
the end of a run held at every state before, so an invariant may be proved step by step under
it.
-/

namespace AvianCore.Lib
open Relation

/-- A machine with a log, newest entry first. -/
structure Logged (σ μ : Type) where
  log : σ → List μ
  Step : σ → σ → Prop
  grows : ∀ {a b}, Step a b → log a <:+ log b

namespace Logged
variable {σ μ : Type} (M : Logged σ μ)

def Chain : σ → σ → Prop := ReflTransGen M.Step

def Clean (good : μ → Prop) (s : σ) : Prop := ∀ entry ∈ M.log s, good entry

variable {M} {good : μ → Prop} {a b c : σ}

theorem Clean.back (suffix : M.log a <:+ M.log b) (clean : M.Clean good b) : M.Clean good a :=
  fun entry member => clean entry (suffix.subset member)

theorem Chain.refl (a : σ) : M.Chain a a := ReflTransGen.refl

theorem Chain.single (step : M.Step a b) : M.Chain a b := ReflTransGen.single step

theorem Chain.trans (first : M.Chain a b) (second : M.Chain b c) : M.Chain a c := ReflTransGen.trans first second

theorem Chain.grows (chain : M.Chain a b) : M.log a <:+ M.log b := by
  induction chain with
  | refl => exact List.suffix_rfl
  | tail _ step ih => exact ih.trans (M.grows step)

variable {I : σ → Prop}

theorem Chain.keeps_while {cond : List μ → Prop} (chain : M.Chain a b)
    (back : ∀ older newer, older <:+ newer → cond newer → cond older)
    (step : ∀ s t, M.Step s t → cond (M.log t) → I s → I t) (holds : cond (M.log b)) (start : I a) : I b := by
  induction chain with
  | refl => exact start
  | tail _ last ih => exact step _ _ last holds (ih (back _ _ (M.grows last) holds))

theorem Chain.keeps_always (chain : M.Chain a b) (step : ∀ s t, M.Step s t → I s → I t) (start : I a) : I b := by
  have back : ∀ older newer : List μ, older <:+ newer → True → True := fun _ _ _ _ => trivial
  exact chain.keeps_while back (fun s t move _ => step s t move) trivial start

theorem Chain.keeps (chain : M.Chain a b) (step : ∀ s t, M.Step s t → M.Clean good t → I s → I t)
    (clean : M.Clean good b) (start : I a) : I b := by
  have back : ∀ older newer : List μ, older <:+ newer → (∀ entry ∈ newer, good entry) → ∀ entry ∈ older, good entry :=
    fun _ _ suffix clean entry member => clean entry (suffix.subset member)
  exact chain.keeps_while back step clean start

variable {κ : Type} {Opens Closes : κ → σ → σ → Prop}

/-- A step of the machine, or a run of it between an opening and the closing that belongs to it. -/
inductive Transact (M : Logged σ μ) (Opens Closes : κ → σ → σ → Prop) : σ → σ → Prop where
  | step {s t : σ} (step : M.Step s t) : Transact M Opens Closes s t
  | whole {s t u v : σ} (key : κ) (opens : Opens key s t) (body : M.Chain t u)
      (closes : Closes key u v) : Transact M Opens Closes s v

theorem Transact.grows (opens : ∀ {key a b}, Opens key a b → M.log a <:+ M.log b)
    (closes : ∀ {key a b}, Closes key a b → M.log a <:+ M.log b)
    (move : Transact M Opens Closes a b) : M.log a <:+ M.log b := by
  cases move with
  | step step => exact M.grows step
  | whole _ first body last => exact ((opens first).trans body.grows).trans (closes last)

def transactions (M : Logged σ μ) (Opens Closes : κ → σ → σ → Prop)
    (opens : ∀ {key a b}, Opens key a b → M.log a <:+ M.log b)
    (closes : ∀ {key a b}, Closes key a b → M.log a <:+ M.log b) : Logged σ μ where
  log := M.log
  Step := Transact M Opens Closes
  grows := Transact.grows opens closes

theorem Chain.lift {opens : ∀ {key a b}, Opens key a b → M.log a <:+ M.log b}
    {closes : ∀ {key a b}, Closes key a b → M.log a <:+ M.log b} (chain : M.Chain a b) :
    (M.transactions Opens Closes opens closes).Chain a b := by
  induction chain with
  | refl => exact Chain.refl a
  | tail _ step ih => exact ih.trans (Chain.single (Transact.step step))

theorem Transact.keeps (move : Transact M Opens Closes a b)
    (closesGrow : ∀ {key a b}, Closes key a b → M.log a <:+ M.log b)
    (step : ∀ s t, M.Step s t → M.Clean good t → I s → I t) (opens : ∀ key s t, Opens key s t → I s → I t)
    (closes : ∀ key s t, Closes key s t → I s → I t) (clean : M.Clean good b) (start : I a) : I b := by
  cases move with
  | step only => exact step _ _ only clean start
  | whole key first body last =>
    have middle := body.keeps step (clean.back (closesGrow last)) (opens key _ _ first start)
    exact closes key _ _ last middle

end Logged
end AvianCore.Lib
