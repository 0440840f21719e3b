import Mathlib

/-!
Scanners over a buffer that is still filling. A scanner gets something from the symbols ahead of it and
moves on, refuses them, or comes to the end of the buffer; then it may name an error for the case that
the buffer is larger than it should be. A scanner is incremental when what it got or refused stays as
more symbols arrive, and when something it gets only then ends behind what there was before.
-/

namespace AvianCore.Lib
open List

/-- What a scanner has passed and what lies ahead of it. -/
structure Cursor (σ : Type) where
  behind : List σ
  ahead : List σ
deriving DecidableEq

/-- What a scanner answers: the end of the buffer, with the error for a buffer beyond the limit if
there is one, a refusal, or something and the place behind it. -/
inductive Outcome (σ ε α : Type)
  | starved (limit : Option ε)
  | refused (e : ε)
  | got (a : α) (c : Cursor σ)

def Scanner (σ ε α : Type) := Cursor σ → Outcome σ ε α

namespace Scanner
variable {σ ε α β τ : Type}

instance : Monad (Scanner σ ε) where
  pure a := fun c => .got a c
  bind p f := fun c =>
    match p c with
    | .starved limit => .starved limit
    | .refused e => .refused e
    | .got a c => f a c

def position : Scanner σ ε Nat := fun c => .got c.behind.length c

def passed : Scanner σ ε (List σ) := fun c => .got c.behind c

def refuseIf (bad : Bool) (e : ε) : Scanner σ ε Unit := fun c => if bad then .refused e else .got () c

def peek (limit : Option ε) : Scanner σ ε σ := fun c =>
  match c.ahead with
  | [] => .starved limit
  | s :: _ => .got s c

/-- All symbols up to one that is not of the kind; there has to be one. -/
def span (P : σ → Bool) (limit : Option ε) : Scanner σ ε (List σ) := fun c =>
  match c.ahead.dropWhile P with
  | [] => .starved limit
  | s :: rest => .got (c.ahead.takeWhile P) ⟨c.behind ++ c.ahead.takeWhile P, s :: rest⟩

def symbol [DecidableEq σ] (s : σ) (e : ε) : Scanner σ ε Unit := fun c =>
  match c.ahead with
  | [] => .starved none
  | x :: rest => if x = s then .got () ⟨c.behind ++ [x], rest⟩ else .refused e

def exactly (n : Nat) : Scanner σ ε (List σ) := fun c =>
  if c.ahead.length < n then .starved none
  else .got (c.ahead.take n) ⟨c.behind ++ c.ahead.take n, c.ahead.drop n⟩

def reserve (n : Nat) (p : Scanner σ ε α) : Scanner σ ε α := fun c =>
  if c.ahead.length < n then .starved none else p c

def lift (x : Except ε α) : Scanner σ ε α := fun c =>
  match x with
  | .error e => .refused e
  | .ok a => .got a c

/-- A step over and over, until it answers. Every step that does not has to move on. -/
def loop (step : τ → Scanner σ ε (τ ⊕ α)) : Nat → τ → Scanner σ ε α
  | 0, _ => fun _ => .starved none
  | n + 1, t => step t >>= fun
    | .inl t => loop step n t
    | .inr a => pure a

@[simp] theorem pure_apply (a : α) (c : Cursor σ) : (pure a : Scanner σ ε α) c = .got a c := rfl

theorem bind_apply (p : Scanner σ ε α) (f : α → Scanner σ ε β) (c : Cursor σ) :
    (p >>= f) c = match p c with
      | .starved limit => .starved limit
      | .refused e => .refused e
      | .got a c => f a c := rfl

variable {p : Scanner σ ε α} {f : α → Scanner σ ε β}

@[simp] theorem bind_got {c c' : Cursor σ} {b : β} :
    (p >>= f) c = .got b c' ↔ ∃ a c₁, p c = .got a c₁ ∧ f a c₁ = .got b c' := by
  rw [bind_apply]
  cases p c with
  | starved limit | refused e | got a c₁ => simp

variable {c : Cursor σ} {limit : Option ε}

@[simp] theorem bind_starved : (p >>= f) c = .starved limit ↔
      p c = .starved limit ∨ ∃ a c₁, p c = .got a c₁ ∧ f a c₁ = .starved limit := by
  rw [bind_apply]
  cases p c with
  | starved limit | refused e | got a c₁ => simp

variable {e : ε}

@[simp] theorem bind_refused :
    (p >>= f) c = .refused e ↔ p c = .refused e ∨ ∃ a c₁, p c = .got a c₁ ∧ f a c₁ = .refused e := by
  rw [bind_apply]
  cases p c with
  | starved limit | refused e | got a c₁ => simp

@[simp] theorem position_apply (c : Cursor σ) : (position : Scanner σ ε Nat) c = .got c.behind.length c := rfl

@[simp] theorem passed_apply (c : Cursor σ) : (passed : Scanner σ ε (List σ)) c = .got c.behind c := rfl

@[simp] theorem refuseIf_got {bad : Bool} {c c' : Cursor σ} {u : Unit} :
    refuseIf bad e c = .got u c' ↔ bad = false ∧ c' = c := by
  unfold refuseIf
  cases bad with
  | true => simp
  | false => simp [eq_comm]

@[simp] theorem refuseIf_starved {bad : Bool} : ¬ refuseIf bad e c = .starved limit := by
  unfold refuseIf
  cases bad with
  | true | false => simp

@[simp] theorem peek_got {c c' : Cursor σ} {s : σ} : peek limit c = .got s c' ↔ c.ahead.head? = some s ∧ c' = c := by
  unfold peek
  cases c.ahead with
  | nil => simp
  | cons x rest => simp [eq_comm]

@[simp] theorem peek_starved {limit limit' : Option ε} :
    peek limit c = .starved limit' ↔ c.ahead = [] ∧ limit' = limit := by
  unfold peek
  cases c.ahead with
  | nil => simp [eq_comm]
  | cons x rest => simp

variable {P : σ → Bool} {a : List σ}

theorem takeWhile_append_stop {s : σ} (all : ∀ x ∈ a, P x = true) (stop : P s = false) (rest : List σ) :
    (a ++ s :: rest).takeWhile P = a ∧ (a ++ s :: rest).dropWhile P = s :: rest := by
  rw [takeWhile_append_of_pos all, dropWhile_append_of_pos all]
  simp [stop]

@[simp] theorem span_got {c c' : Cursor σ} :
    span P limit c = .got a c' ↔ ∃ s rest, c.ahead = a ++ s :: rest ∧ (∀ x ∈ a, P x = true) ∧
      P s = false ∧ c' = ⟨c.behind ++ a, s :: rest⟩ := by
  unfold span
  cases later : c.ahead.dropWhile P with
  | nil =>
    simp only [reduceCtorEq, false_iff]
    rintro ⟨s, rest, ahead, all, stop, -⟩
    rw [ahead, (takeWhile_append_stop all stop rest).2] at later
    cases later
  | cons s rest =>
    simp only [Outcome.got.injEq]
    constructor
    · rintro ⟨rfl, rfl⟩
      refine ⟨s, rest, ?_, ?_, ?_, rfl⟩
      · rw [← later, takeWhile_append_dropWhile]
      · intro x member
        exact mem_takeWhile_imp member
      · have := List.head?_dropWhile_not P c.ahead
        rw [later] at this
        simpa using this
    · rintro ⟨s', rest', ahead, all, stop, rfl⟩
      obtain ⟨taken, dropped⟩ := takeWhile_append_stop all stop rest'
      rw [ahead, dropped] at later
      cases later
      rw [ahead, taken]
      exact ⟨rfl, rfl⟩

@[simp] theorem span_starved {limit limit' : Option ε} :
    span P limit c = .starved limit' ↔ (∀ x ∈ c.ahead, P x = true) ∧ limit' = limit := by
  unfold span
  cases later : c.ahead.dropWhile P with
  | nil =>
    rw [dropWhile_eq_nil_iff] at later
    rw [Outcome.starved.injEq, and_iff_right later]
    exact eq_comm
  | cons s rest =>
    simp only [reduceCtorEq, false_iff]
    rintro ⟨all, -⟩
    rw [dropWhile_eq_nil_iff.mpr all] at later
    cases later

@[simp] theorem span_refused : ¬ span P limit c = .refused e := by
  unfold span
  cases c.ahead.dropWhile P with
  | nil | cons s rest => simp

@[simp] theorem symbol_got [DecidableEq σ] {s : σ} {c c' : Cursor σ} {u : Unit} :
    symbol s e c = .got u c' ↔ ∃ rest, c.ahead = s :: rest ∧ c' = ⟨c.behind ++ [s], rest⟩ := by
  unfold symbol
  cases c.ahead with
  | nil => simp
  | cons x rest =>
    by_cases same : x = s
    · simp [same, eq_comm]
    · simp [same]

@[simp] theorem symbol_starved [DecidableEq σ] {s : σ} :
    symbol s e c = .starved limit ↔ c.ahead = [] ∧ limit = none := by
  unfold symbol
  cases c.ahead with
  | nil => simp [eq_comm]
  | cons x rest =>
    by_cases same : x = s <;> simp [same]

variable {n : Nat}

@[simp] theorem exactly_got {c c' : Cursor σ} : (exactly n : Scanner σ ε (List σ)) c = .got a c' ↔
      a.length = n ∧ ∃ rest, c.ahead = a ++ rest ∧ c' = ⟨c.behind ++ a, rest⟩ := by
  unfold exactly
  by_cases short : c.ahead.length < n
  · simp only [if_pos short, reduceCtorEq, false_iff]
    rintro ⟨rfl, rest, ahead, -⟩
    rw [ahead, length_append] at short
    omega
  simp only [if_neg short, Outcome.got.injEq]
  constructor
  · rintro ⟨rfl, rfl⟩
    refine ⟨?_, _, (take_append_drop n c.ahead).symm, rfl⟩
    rw [length_take]
    omega
  · rintro ⟨rfl, rest, ahead, rfl⟩
    rw [ahead]
    simp

@[simp] theorem exactly_starved :
    (exactly n : Scanner σ ε (List σ)) c = .starved limit ↔ c.ahead.length < n ∧ limit = none := by
  unfold exactly
  by_cases short : c.ahead.length < n
  · simp [short, eq_comm]
  · simp [short]

theorem reserve_got {c c' : Cursor σ} {a : α} : reserve n p c = .got a c' ↔ n ≤ c.ahead.length ∧ p c = .got a c' := by
  unfold reserve
  by_cases short : c.ahead.length < n
  · simp [short]
  · simp [short, Nat.le_of_not_lt short]

theorem reserve_starved : reserve n p c = .starved limit ↔
    c.ahead.length < n ∧ limit = none ∨ n ≤ c.ahead.length ∧ p c = .starved limit := by
  unfold reserve
  by_cases short : c.ahead.length < n
  · simp [short, eq_comm]
  · simp [short, Nat.le_of_not_lt short]

@[simp] theorem lift_got {x : Except ε α} {c c' : Cursor σ} {a : α} : lift x c = .got a c' ↔ x = .ok a ∧ c' = c := by
  cases x with
  | error e => simp [lift]
  | ok a => simp [lift, eq_comm]

@[simp] theorem lift_starved {x : Except ε α} : ¬ lift x c = .starved limit := by
  cases x with
  | error e | ok a => simp [lift]

theorem loop_succ (step : τ → Scanner σ ε (τ ⊕ α)) (n : Nat) (t : τ) : loop step (n + 1) t = step t >>= fun
    | .inl t => loop step n t
    | .inr a => pure a := rfl

variable {step : τ → Scanner σ ε (τ ⊕ α)}

theorem loop_fuel (moves : ∀ t c t' c', step t c = .got (.inl t') c' → c'.ahead.length < c.ahead.length) {n m : Nat}
    {t : τ} (enough : c.ahead.length < n) (enough' : c.ahead.length < m) :
    loop step n t c = loop step m t c := by
  induction n generalizing m t c with
  | zero => exact absurd enough (Nat.not_lt_zero _)
  | succ n ih =>
    cases m with
    | zero => exact absurd enough' (Nat.not_lt_zero _)
    | succ m =>
      rw [loop_succ, loop_succ, bind_apply, bind_apply]
      cases answer : step t c with
      | starved limit | refused e => rfl
      | got next c' =>
        cases next with
        | inr a => rfl
        | inl t' =>
          have shorter := moves t c t' c' answer
          exact ih (by omega) (by omega)

structure Incremental (p : Scanner σ ε α) : Prop where
  forward : ∀ {u r a c'}, p ⟨u, r⟩ = .got a c' → ∃ used, c'.behind = u ++ used ∧ r = used ++ c'.ahead
  got_more : ∀ {u r a c'} (more : List σ), p ⟨u, r⟩ = .got a c' →
    p ⟨u, r ++ more⟩ = .got a ⟨c'.behind, c'.ahead ++ more⟩
  refused_more : ∀ {u r e} (more : List σ), p ⟨u, r⟩ = .refused e → p ⟨u, r ++ more⟩ = .refused e
  starved_more : ∀ {u r limit more a c'}, p ⟨u, r⟩ = .starved limit → p ⟨u, r ++ more⟩ = .got a c' →
    u.length + r.length ≤ c'.behind.length

theorem Incremental.length_behind (inc : Incremental p) {c c' : Cursor σ} {a : α} (got : p c = .got a c') :
    c.behind.length ≤ c'.behind.length ∧ c'.behind.length + c'.ahead.length = c.behind.length + c.ahead.length := by
  obtain ⟨used, behind, ahead⟩ := inc.forward got
  rw [behind, ahead, length_append, length_append]
  omega

theorem Incremental.of_blind (blind : ∀ u, (∃ a, ∀ r, p ⟨u, r⟩ = .got a ⟨u, r⟩) ∨ ∃ e, ∀ r, p ⟨u, r⟩ = .refused e) :
    Incremental p := by
  constructor
  · intro u r a c' got
    rcases blind u with ⟨b, always⟩ | ⟨e, always⟩
    · rw [always] at got
      cases got
      exact ⟨[], by simp⟩
    · rw [always] at got
      cases got
  · intro u r a c' more got
    rcases blind u with ⟨b, always⟩ | ⟨e, always⟩
    · rw [always] at got ⊢
      cases got
      rfl
    · rw [always] at got
      cases got
  · intro u r e more refused
    rcases blind u with ⟨b, always⟩ | ⟨e', always⟩
    · rw [always] at refused
      cases refused
    · rw [always] at refused ⊢
      exact refused
  · intro u r limit more a c' starved
    rcases blind u with ⟨b, always⟩ | ⟨e, always⟩
    · rw [always] at starved
      cases starved
    · rw [always] at starved
      cases starved

theorem Incremental.pure (a : α) : Incremental (pure a : Scanner σ ε α) := .of_blind fun _ => Or.inl ⟨a, fun _ => rfl⟩

theorem Incremental.position : Incremental (position : Scanner σ ε Nat) :=
  .of_blind fun u => Or.inl ⟨u.length, fun _ => rfl⟩

theorem Incremental.passed : Incremental (passed : Scanner σ ε (List σ)) := .of_blind fun u => Or.inl ⟨u, fun _ => rfl⟩

theorem Incremental.refuseIf (bad : Bool) (e : ε) : Incremental (refuseIf bad e : Scanner σ ε Unit) := by
  cases bad with
  | false => exact .of_blind fun _ => Or.inl ⟨(), fun _ => rfl⟩
  | true => exact .of_blind fun _ => Or.inr ⟨e, fun _ => rfl⟩

theorem Incremental.lift (x : Except ε α) : Incremental (lift x : Scanner σ ε α) := by
  cases x with
  | ok a => exact .of_blind fun _ => Or.inl ⟨a, fun _ => rfl⟩
  | error e => exact .of_blind fun _ => Or.inr ⟨e, fun _ => rfl⟩

theorem Incremental.peek (limit : Option ε) : Incremental (peek limit : Scanner σ ε σ) := by
  constructor
  · intro u r a c' got
    obtain ⟨-, rfl⟩ := peek_got.mp got
    exact ⟨[], by simp⟩
  · intro u r a c' more got
    obtain ⟨first, rfl⟩ := peek_got.mp got
    apply peek_got.mpr
    refine ⟨?_, rfl⟩
    dsimp only at first ⊢
    rw [List.head?_append, first]
    rfl
  · intro u r e more refused
    cases r with
    | nil | cons x rest => cases refused
  · intro u r limit' more a c' starved got
    obtain ⟨empty, -⟩ := peek_starved.mp starved
    obtain ⟨-, rfl⟩ := peek_got.mp got
    dsimp only at empty ⊢
    rw [empty]
    exact le_refl _

theorem Incremental.span (P : σ → Bool) (limit : Option ε) : Incremental (span P limit : Scanner σ ε (List σ)) := by
  constructor
  · intro u r a c' got
    obtain ⟨s, rest, ahead, -, -, rfl⟩ := span_got.mp got
    exact ⟨a, rfl, ahead⟩
  · intro u r a c' more got
    obtain ⟨s, rest, ahead, all, stop, rfl⟩ := span_got.mp got
    apply span_got.mpr
    refine ⟨s, rest ++ more, ?_, all, stop, rfl⟩
    dsimp only at ahead ⊢
    rw [ahead, append_assoc, cons_append]
  · intro u r e more refused
    exact absurd refused span_refused
  · intro u r limit' more a c' starved got
    obtain ⟨all, -⟩ := span_starved.mp starved
    obtain ⟨s, rest, ahead, -, stop, rfl⟩ := span_got.mp got
    dsimp only at all ahead ⊢
    rw [length_append]
    -- The symbol that ends the run is not among those that were there before.
    by_contra short
    have inside : a.length < r.length := by omega
    have here : (r ++ more)[a.length]? = some s := by
      rw [ahead, List.getElem?_append_right (le_refl _), Nat.sub_self]
      rfl
    rw [List.getElem?_append_left inside] at here
    rw [all s (mem_of_getElem? here)] at stop
    cases stop

theorem Incremental.symbol [DecidableEq σ] (s : σ) (e : ε) : Incremental (symbol s e : Scanner σ ε Unit) := by
  constructor
  · intro u r a c' got
    obtain ⟨rest, ahead, rfl⟩ := symbol_got.mp got
    exact ⟨[s], rfl, ahead⟩
  · intro u r a c' more got
    obtain ⟨rest, ahead, rfl⟩ := symbol_got.mp got
    apply symbol_got.mpr
    refine ⟨rest ++ more, ?_, rfl⟩
    dsimp only at ahead ⊢
    rw [ahead, cons_append]
  · intro u r e' more refused
    cases r with
    | nil => cases refused
    | cons x rest =>
      unfold Scanner.symbol at refused ⊢
      dsimp only [cons_append] at refused ⊢
      by_cases same : x = s
      · rw [if_pos same] at refused
        cases refused
      · rwa [if_neg same] at refused ⊢
  · intro u r limit more a c' starved got
    obtain ⟨empty, -⟩ := symbol_starved.mp starved
    obtain ⟨rest, -, rfl⟩ := symbol_got.mp got
    dsimp only at empty ⊢
    rw [empty, length_append]
    exact Nat.add_le_add_left (Nat.zero_le _) _

theorem Incremental.exactly (n : Nat) : Incremental (exactly n : Scanner σ ε (List σ)) := by
  constructor
  · intro u r a c' got
    obtain ⟨-, rest, ahead, rfl⟩ := exactly_got.mp got
    exact ⟨a, rfl, ahead⟩
  · intro u r a c' more got
    obtain ⟨length, rest, ahead, rfl⟩ := exactly_got.mp got
    apply exactly_got.mpr
    refine ⟨length, rest ++ more, ?_, rfl⟩
    dsimp only at ahead ⊢
    rw [ahead, append_assoc]
  · intro u r e more refused
    unfold Scanner.exactly at refused
    split at refused <;> cases refused
  · intro u r limit more a c' starved got
    obtain ⟨short, -⟩ := exactly_starved.mp starved
    obtain ⟨length, rest, -, rfl⟩ := exactly_got.mp got
    dsimp only at short ⊢
    rw [length_append]
    omega

theorem Incremental.reserve (inc : Incremental p)
    (used : ∀ {c c' : Cursor σ} {a}, p c = .got a c' → c.behind.length + n ≤ c'.behind.length + 1) :
    Incremental (reserve n p) := by
  constructor
  · intro u r a c' got
    exact inc.forward (reserve_got.mp got).2
  · intro u r a c' more got
    obtain ⟨enough, first⟩ := reserve_got.mp got
    apply reserve_got.mpr
    refine ⟨?_, inc.got_more more first⟩
    dsimp only at enough ⊢
    rw [length_append]
    omega
  · intro u r e more refused
    unfold Scanner.reserve at refused ⊢
    dsimp only at refused ⊢
    split at refused
    · cases refused
    · rw [if_neg (by rw [length_append]; omega)]
      exact inc.refused_more more refused
  · intro u r limit more a c' starved got
    obtain ⟨-, later⟩ := reserve_got.mp got
    rcases reserve_starved.mp starved with ⟨short, -⟩ | ⟨-, before⟩
    · have far := used later
      dsimp only at short far
      omega
    · exact inc.starved_more before later

theorem Incremental.bind (inc : Incremental p) (next : ∀ a, Incremental (f a)) : Incremental (p >>= f) where
  forward got := by
    obtain ⟨a, c₁, first, second⟩ := bind_got.mp got
    obtain ⟨used, behind, ahead⟩ := inc.forward first
    obtain ⟨used', behind', ahead'⟩ := (next a).forward second
    refine ⟨used ++ used', ?_, ?_⟩
    · rw [behind', behind, append_assoc]
    · rw [ahead, ahead', append_assoc]
  got_more more got := by
    obtain ⟨a, c₁, first, second⟩ := bind_got.mp got
    exact bind_got.mpr ⟨a, _, inc.got_more more first, (next a).got_more more second⟩
  refused_more more refused := by
    rcases bind_refused.mp refused with first | ⟨a, c₁, first, second⟩
    · exact bind_refused.mpr (Or.inl (inc.refused_more more first))
    · exact bind_refused.mpr (Or.inr ⟨a, _, inc.got_more more first, (next a).refused_more more second⟩)
  starved_more starved got := by
    obtain ⟨b, c₂, later, last⟩ := bind_got.mp got
    rcases bind_starved.mp starved with first | ⟨a, c₁, first, second⟩
    · have passed := inc.starved_more first later
      have further := ((next b).length_behind last).1
      omega
    rw [inc.got_more _ first] at later
    cases later
    have passed := (next _).starved_more second last
    have whole := (inc.length_behind first).2
    dsimp only at whole
    omega

theorem Incremental.ite {P : Prop} [Decidable P] {p q : Scanner σ ε α} (yes : Incremental p)
    (no : Incremental q) : Incremental (if P then p else q) := by
  by_cases holds : P
  · rwa [if_pos holds]
  · rwa [if_neg holds]

theorem Incremental.loop (inc : ∀ t, Incremental (step t)) (n : Nat) (t : τ) : Incremental (loop step n t) := by
  induction n generalizing t with
  | zero =>
    constructor
    · intro u r a c' got
      cases got
    · intro u r a c' more got
      cases got
    · intro u r e more refused
      cases refused
    · intro u r limit more a c' _ got
      cases got
  | succ n ih =>
    rw [loop_succ]
    apply (inc t).bind
    intro next
    cases next with
    | inl t' => exact ih t'
    | inr a => exact .pure a

def Stops (max : Int) (p : Scanner σ ε α) : Prop := ∀ c : Cursor σ, max < c.behind.length → ∀ a c', p c ≠ .got a c'

/-- Where the scanner names an error for a buffer beyond the limit, it gets nothing later either. -/
def Firm (max : Int) (p : Scanner σ ε α) : Prop :=
  ∀ u r e, p ⟨u, r⟩ = .starved (some e) → max < (u.length + r.length : Nat) →
    ∀ more a c', p ⟨u, r ++ more⟩ ≠ .got a c'

variable {max : Int}

theorem Stops.bind_left (stops : Stops max p) (f : α → Scanner σ ε β) : Stops max (p >>= f) := by
  intro c far b c' got
  obtain ⟨a, c₁, first, -⟩ := bind_got.mp got
  exact stops c far a c₁ first

theorem Firm.bind (inc : Incremental p)
    (stops : ∀ u r e more a c', p ⟨u, r⟩ = .starved (some e) → max < (u.length + r.length : Nat) →
      p ⟨u, r ++ more⟩ = .got a c' → Stops max (f a)) (firm : ∀ a, Firm max (f a)) : Firm max (p >>= f) := by
  intro u r e starved far more b c' got
  obtain ⟨a, c₁, first, second⟩ := bind_got.mp got
  rcases bind_starved.mp starved with before | ⟨a', c₂, before, ended⟩
  · have passed := inc.starved_more before first
    exact stops u r e more a c₁ before far first c₁ (by omega) b c' second
  rw [inc.got_more more before] at first
  cases first
  have whole := (inc.length_behind before).2
  dsimp only at whole
  exact firm _ _ _ e ended (by rw [whole]; exact far) more b c' second

theorem Firm.bind_of_stops (inc : Incremental p) (stops : ∀ a, Stops max (f a)) (firm : ∀ a, Firm max (f a)) :
    Firm max (p >>= f) :=
  .bind inc (fun _ _ _ _ a _ _ _ _ => stops a) firm

theorem Firm.bind_of_firm (inc : Incremental p) (firm : Firm max p) (next : ∀ a, Firm max (f a)) : Firm max (p >>= f) :=
  .bind inc (fun u r e more a c' starved far got => absurd got (firm u r e starved far more a c')) next

theorem Firm.of_blind (blind : ∀ c e, p c ≠ .starved (some e)) : Firm max p :=
  fun _ _ e starved => absurd starved (blind _ e)

theorem Stops.loop (stops : ∀ t, Stops max (step t)) (n : Nat) (t : τ) : Stops max (loop step n t) := by
  cases n with
  | zero =>
    intro c _ a c' got
    cases got
  | succ n =>
    rw [loop_succ]
    exact (stops t).bind_left _

theorem Firm.loop (inc : ∀ t, Incremental (step t)) (stops : ∀ t, Stops max (step t))
    (firm : ∀ t u r e more a c', step t ⟨u, r⟩ = .starved (some e) →
      max < (u.length + r.length : Nat) → step t ⟨u, r ++ more⟩ ≠ .got (.inr a) c') (n : Nat) (t : τ) :
    Firm max (loop step n t) := by
  induction n generalizing t with
  | zero =>
    intro u r e starved
    cases starved
  | succ n ih =>
    rw [loop_succ]
    apply Firm.bind (inc t)
    · intro u r e more a c' starved far got
      cases a with
      | inr a => exact absurd got (firm t u r e more a c' starved far)
      | inl t' => exact Stops.loop stops n t'
    · intro a
      cases a with
      | inl t' => exact ih t'
      | inr a =>
        intro u r e starved
        cases starved

end Scanner
end AvianCore.Lib
