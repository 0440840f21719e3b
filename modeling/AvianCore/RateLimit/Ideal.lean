import AvianCore.Lib.Gcra
import AvianCore.RateLimit.Check

/-!
The table against an ideal map from every client to its theoretical arrival time. A client has at most
one entry; whoever has none is back at a full burst, so an entry that is taken over is as good as a new
one, and every call that finds an entry is decided as the map decides it.
-/

namespace AvianCore.RateLimit
open AvianCore.Lib List Function Table
open Gcra (delay)
variable {limits : Limits} {t : Table} {tats : List UInt8 → Nat} {now : Nat} {S : Set (List UInt8)}

/-- The ideal map after some calls, newest first. A call that finds no entry is not charged. -/
def ideal (limits : Limits) : List Call → List UInt8 → Nat
  | [] => fun _ => 0
  | call :: earlier =>
    match call.result with
    | none => ideal limits earlier
    | some _ =>
      Function.update (ideal limits earlier) call.client
        (Gcra.next limits.emission limits.tolerance (ideal limits earlier call.client) call.now)

def Placed (limits : Limits) (t : Table) (key e : Nat) : Prop :=
  ∃ front back, limits.places key = front ++ e :: back ∧ ∀ f ∈ front, (t f).key ≠ 0

/-- What the table says of the clients of a set agrees with the map, as far as it matters from now
on. -/
structure Refines (limits : Limits) (S : Set (List UInt8)) (t : Table) (tats : List UInt8 → Nat)
    (now : Nat) : Prop where
  free : ∀ e, (t e).key = 0 → (t e).tat ≤ now
  unique : ∀ e e', (t e).key ≠ 0 → (t e).key = (t e').key → e = e'
  placed : ∀ e, (t e).key ≠ 0 → Placed limits t (t e).key e
  agrees : ∀ client ∈ S, ∀ e, (t e).key = keyOf limits.seed client → max (t e).tat now = max (tats client) now
  idle : ∀ client ∈ S, (∀ e, (t e).key ≠ keyOf limits.seed client) → tats client ≤ now

theorem Refines.fresh (limits : Limits) (S : Set (List UInt8)) (now : Nat) :
    Refines limits S fresh (fun _ => 0) now where
  free _ _ := Nat.zero_le _
  unique _ _ used := absurd rfl used
  placed _ used := absurd rfl used
  agrees client _ _ same := absurd same.symm (keyOf_pos limits.seed client).ne'
  idle _ _ _ := Nat.zero_le _

theorem Refines.later (refines : Refines limits S t tats now) {now' : Nat} (le : now ≤ now') :
    Refines limits S t tats now' where
  free e unused := (refines.free e unused).trans le
  unique := refines.unique
  placed := refines.placed
  agrees client member e same := by
    have before := refines.agrees client member e same
    omega
  idle client member none := (refines.idle client member none).trans le

theorem Refines.seek_entry (refines : Refines limits S t tats now) {key e : Nat} (used : key ≠ 0)
    (here : (t e).key = key) : t.seek key (limits.places key) = some (e, t) := by
  have unused : (t e).key ≠ 0 := here ▸ used
  obtain ⟨front, back, places, full⟩ := refines.placed e unused
  rw [here] at places
  rw [places]
  clear places
  induction front with
  | nil =>
    show t.seek key (e :: back) = _
    rw [seek, if_pos here]
  | cons f rest ih =>
    rw [cons_append, seek]
    by_cases found : (t f).key = key
    · have same := refines.unique f e (found ▸ used) (found.trans here.symm)
      rw [if_pos found, same]
    · rw [if_neg found, if_neg (full f mem_cons_self)]
      exact ih fun g member => full g (mem_cons_of_mem _ member)

theorem Refines.find_entry (refines : Refines limits S t tats now) {key e later : Nat} (used : key ≠ 0)
    (here : (t e).key = key) : t.find limits key later = some (e, t) := by
  rw [find, refines.seek_entry used here]
  rfl

theorem Table.seek_cases (t : Table) (key : Nat) (places : List Nat) :
    (∃ front e back, places = front ++ e :: back ∧ (∀ f ∈ front, (t f).key ≠ key ∧ (t f).key ≠ 0) ∧
      (t.seek key places = some (e, Function.update t e { t e with key := key }) ∧ ((t e).key = key ∨ (t e).key = 0))) ∨
      t.seek key places = none ∧ ∀ f ∈ places, (t f).key ≠ key ∧ (t f).key ≠ 0 := by
  induction places with
  | nil => exact .inr ⟨rfl, fun f member => by cases member⟩
  | cons e rest ih =>
    rw [seek]
    by_cases here : (t e).key = key
    · refine .inl ⟨[], e, rest, rfl, by simp, ?_, Or.inl here⟩
      rw [if_pos here, ← here, update_eq_self]
    rw [if_neg here]
    by_cases unused : (t e).key = 0
    · refine .inl ⟨[], e, rest, rfl, by simp, ?_, Or.inr unused⟩
      rw [if_pos unused]
    rw [if_neg unused]
    rcases ih with ⟨front, e', back, split, full, found⟩ | ⟨none, full⟩
    · refine .inl ⟨e :: front, e', back, by rw [split]; rfl, ?_, found⟩
      intro f member
      rcases mem_cons.mp member with rfl | later
      · exact ⟨here, unused⟩
      · exact full f later
    refine .inr ⟨none, ?_⟩
    intro f member
    rcases mem_cons.mp member with rfl | later
    · exact ⟨here, unused⟩
    · exact full f later

theorem Table.takeOver_some {t t' : Table} {key now e : Nat} {places : List Nat}
    (others : ∀ f ∈ places, (t f).key ≠ key) (found : t.takeOver key now places = some (e, t')) :
    e ∈ places ∧ t' = Function.update t e { t e with key := key } ∧ (t e).tat ≤ now := by
  induction places with
  | nil => cases found
  | cons f rest ih =>
    rw [takeOver, if_neg (others f mem_cons_self)] at found
    by_cases quiet : (t f).tat ≤ now
    · rw [if_pos quiet] at found
      cases found
      exact ⟨mem_cons_self, rfl, quiet⟩
    · rw [if_neg quiet] at found
      obtain ⟨member, rest⟩ := ih (fun g member => others g (mem_cons_of_mem _ member)) found
      exact ⟨mem_cons_of_mem _ member, rest⟩

theorem Refines.find_cases (refines : Refines limits S t tats now) {key e : Nat} {t' : Table}
    (used : key ≠ 0) (found : t.find limits key now = some (e, t')) :
    t' = Function.update t e { t e with key := key } ∧ Placed limits t key e ∧
      ((t e).key = key ∨ (∀ f, (t f).key ≠ key) ∧ (t e).tat ≤ now) := by
  by_cases own : ∃ f, (t f).key = key
  · obtain ⟨f, here⟩ := own
    rw [refines.find_entry used here] at found
    cases found
    refine ⟨?_, here ▸ refines.placed e (here ▸ used), Or.inl here⟩
    rw [← here, update_eq_self]
  have none : ∀ f, (t f).key ≠ key := fun f here => own ⟨f, here⟩
  unfold find at found
  rcases t.seek_cases key (limits.places key) with
    ⟨front, f, back, split, full, sought, here | unused⟩ | ⟨sought, full⟩
  · exact absurd here (none f)
  · rw [sought] at found
    cases found
    exact ⟨rfl, ⟨front, back, split, fun g member => (full g member).2⟩, Or.inr ⟨none, refines.free e unused⟩⟩
  · rw [sought] at found
    obtain ⟨member, changed, quiet⟩ := takeOver_some (fun f _ => none f) found
    obtain ⟨front, back, split⟩ := append_of_mem member
    refine ⟨changed, ⟨front, back, split, ?_⟩, Or.inr ⟨none, quiet⟩⟩
    intro f before
    apply (full f _).2
    rw [split]
    exact mem_append_left _ before

variable {client : List UInt8}

theorem Refines.set (refines : Refines limits S t tats now)
    (distinct : ∀ other ∈ S, keyOf limits.seed other = keyOf limits.seed client → other = client) {e tat tat' : Nat}
    (placed : Placed limits t (keyOf limits.seed client) e)
    (own : (t e).key = keyOf limits.seed client ∨ (∀ f, (t f).key ≠ keyOf limits.seed client) ∧ (t e).tat ≤ now)
    (same : max tat now = max tat' now) : Refines limits S (Function.update t e ⟨keyOf limits.seed client, tat⟩)
      (Function.update tats client tat') now := by
  have positive := keyOf_pos limits.seed client
  have alone : ∀ f, f ≠ e → (t f).key ≠ keyOf limits.seed client := by
    intro f differs here
    rcases own with entry | ⟨none, -⟩
    · exact differs (refines.unique f e (by omega) (here.trans entry.symm))
    · exact none f here
  constructor
  · intro f unused
    by_cases here : f = e
    · subst here
      rw [update_self] at unused
      exact absurd unused positive.ne'
    · rw [update_of_ne here] at unused ⊢
      exact refines.free f unused
  · intro f f' used equal
    by_cases here : f = e
    · by_cases here' : f' = e
      · rw [here, here']
      · rw [here, update_self, update_of_ne here'] at equal
        exact absurd equal.symm (alone f' here')
    by_cases here' : f' = e
    · rw [here', update_self, update_of_ne here] at equal
      exact absurd equal (alone f here)
    rw [update_of_ne here] at used equal
    rw [update_of_ne here'] at equal
    exact refines.unique f f' used equal
  · intro f used
    have stays : ∀ key g, Placed limits t key g →
        Placed limits (Function.update t e ⟨keyOf limits.seed client, tat⟩) key g := by
      rintro key g ⟨front, back, split, full⟩
      refine ⟨front, back, split, ?_⟩
      intro h member
      by_cases here : h = e
      · rw [here, update_self]
        exact positive.ne'
      · rw [update_of_ne here]
        exact full h member
    by_cases here : f = e
    · subst here
      rw [update_self]
      exact stays _ _ placed
    · rw [update_of_ne here] at used ⊢
      exact stays _ _ (refines.placed f used)
  · intro other member f held
    by_cases here : f = e
    · subst here
      rw [update_self] at held ⊢
      rw [distinct other member held.symm, update_self]
      exact same
    rw [update_of_ne here] at held ⊢
    have differs : other ≠ client := by
      rintro rfl
      exact alone f here held
    rw [update_of_ne differs]
    exact refines.agrees other member f held
  · intro other member none
    have differs : other ≠ client := by
      rintro rfl
      apply none e
      rw [update_self]
    rw [update_of_ne differs]
    by_cases held : (t e).key = keyOf limits.seed other
    · rcases own with entry | ⟨-, quiet⟩
      · exact absurd (distinct other member (held.symm.trans entry)) differs
      · have agrees := refines.agrees other member e held
        omega
    apply refines.idle other member
    intro f
    by_cases here : f = e
    · rw [here]
      exact held
    have kept := none f
    rw [update_of_ne here] at kept
    exact kept

theorem Refines.check_entry (refines : Refines limits S t tats now) {e : Nat}
    (entry : (t e).key = keyOf limits.seed client) (later : Nat) :
    (t.check limits client later).2 = some (delay limits.tolerance (t e).tat later) := by
  unfold Table.check delay
  rw [refines.find_entry (keyOf_pos limits.seed client).ne' entry]
  dsimp only
  split
  · rfl
  · rw [Option.some.injEq]
    omega

theorem Refines.check (refines : Refines limits S t tats now) (member : client ∈ S)
    (distinct : ∀ other ∈ S, keyOf limits.seed other = keyOf limits.seed client → other = client)
    (fits : now + limits.tolerance + limits.emission < 2 ^ 64) :
    t.check limits client now = (t, none) ∨ ∃ t', t.check limits client now =
        (t', some (delay limits.tolerance (tats client) now)) ∧ Refines limits S t' (Function.update tats client
        (Gcra.next limits.emission limits.tolerance (tats client) now)) now ∧
      ∃ e, (t' e).key = keyOf limits.seed client ∧ (0 < delay limits.tolerance (tats client) now →
          max (t' e).tat now = max (tats client) now) := by
  unfold Table.check
  cases found : t.find limits (keyOf limits.seed client) now with
  | none => exact .inl rfl
  | some place =>
    obtain ⟨e, t'⟩ := place
    obtain ⟨rfl, placed, own⟩ := refines.find_cases (keyOf_pos limits.seed client).ne' found
    have same : max (t e).tat now = max (tats client) now := by
      rcases own with entry | ⟨none, quiet⟩
      · exact refines.agrees client member e entry
      · have idle := refines.idle client member none
        omega
    right
    simp only [update_self, same]
    by_cases refused : limits.tolerance < max (tats client) now - now
    · have waits : delay limits.tolerance (tats client) now ≠ 0 := by
        unfold delay
        omega
      have stays : Gcra.next limits.emission limits.tolerance (tats client) now = tats client := by
        rw [Gcra.next, if_neg waits]
      rw [if_pos refused, stays]
      refine ⟨_, rfl, refines.set distinct placed own same, e, ?_, ?_⟩
      · rw [update_self]
      · intro _
        rw [update_self]
        exact same
    · have through : delay limits.tolerance (tats client) now = 0 := by
        unfold delay
        omega
      have step : Gcra.next limits.emission limits.tolerance (tats client) now =
          max (tats client) now + limits.emission := by
        rw [Gcra.next, if_pos through]
      rw [if_neg refused, through, step, word_eq (by omega), update_idem]
      refine ⟨_, rfl, refines.set distinct placed own rfl, e, ?_, ?_⟩
      · rw [update_self]
      · intro some
        exact absurd some (Nat.lt_irrefl 0)

theorem run_concat (limits : Limits) (calls : List (List UInt8 × Nat)) (client : List UInt8) (now : Nat) :
    run limits (calls ++ [(client, now)]) = (((run limits calls).1.check limits client now).1,
        ⟨client, now, ((run limits calls).1.check limits client now).2⟩ :: (run limits calls).2) := by
  simp only [run, foldl_append, foldl_cons, foldl_nil]

/-- What the runs that are looked at have to meet: times do not fall, clients have keys of their own,
and no arrival time wraps. -/
structure Regular (limits : Limits) (calls : List (List UInt8 × Nat)) : Prop where
  ordered : calls.Pairwise fun a b => a.2 ≤ b.2
  distinct : ∀ a ∈ calls, ∀ b ∈ calls, keyOf limits.seed a.1 = keyOf limits.seed b.1 → a.1 = b.1
  fits : ∀ call ∈ calls, call.2 + limits.tolerance + limits.emission < 2 ^ 64

def clients (calls : List (List UInt8 × Nat)) : Set (List UInt8) := { client | ∃ call ∈ calls, call.1 = client }

theorem Regular.call {calls front back : List (List UInt8 × Nat)} {now : Nat} (regular : Regular limits calls)
    (split : calls = front ++ (client, now) :: back) :
    (client, now) ∈ calls ∧ (∀ call ∈ front, call.2 ≤ now) ∧
      ∀ other ∈ clients calls, keyOf limits.seed other = keyOf limits.seed client → other = client := by
  have member : (client, now) ∈ calls := by
    rw [split]
    exact mem_append_right _ mem_cons_self
  refine ⟨member, ?_, ?_⟩
  · have ordered := regular.ordered
    rw [split] at ordered
    intro call early
    exact (pairwise_append.mp ordered).2.2 call early (client, now) mem_cons_self
  · rintro other ⟨call, present, rfl⟩ same
    exact regular.distinct call present (client, now) member same

def Decides (limits : Limits) (log : List Call) : Prop :=
  ∀ later call earlier, log = later ++ call :: earlier → ∀ d, call.result = some d →
    d = delay limits.tolerance (ideal limits earlier call.client) call.now

variable {log : List Call}

theorem Decides.cons {call : Call} (decides : Decides limits log)
    (new : ∀ d, call.result = some d → d = delay limits.tolerance (ideal limits log call.client) call.now) :
    Decides limits (call :: log) := by
  intro later other earlier split d result
  cases later with
  | nil =>
    cases split
    exact new d result
  | cons first later =>
    cases split
    exact decides later other earlier rfl d result

theorem Decides.tail {call : Call} (decides : Decides limits (call :: log)) : Decides limits log := by
  intro later other earlier split
  exact decides (call :: later) other earlier (by rw [split]; rfl)

theorem run_refines {calls front back : List (List UInt8 × Nat)} (regular : Regular limits calls)
    (split : calls = front ++ back) : Decides limits (run limits front).2 ∧ ∀ now, (∀ call ∈ front, call.2 ≤ now) →
        Refines limits (clients calls) (run limits front).1 (ideal limits (run limits front).2) now := by
  induction front using List.reverseRecOn generalizing back with
  | nil =>
    constructor
    · intro later call earlier split
      cases later <;> cases split
    · intro now _
      exact Refines.fresh limits _ now
  | append_singleton front call ih =>
    obtain ⟨client, time⟩ := call
    rw [append_assoc] at split
    obtain ⟨decides, refines⟩ := ih split
    obtain ⟨member, before, distinct⟩ := regular.call split
    have past : ∀ now, (∀ call ∈ front ++ [(client, time)], call.2 ≤ now) → time ≤ now := by
      intro now all
      exact all (client, time) (mem_append_right _ mem_cons_self)
    have now := refines time before
    rw [run_concat]
    rcases now.check ⟨_, member, rfl⟩ distinct (regular.fits _ member) with
      none | ⟨t', found, refines', -⟩
    · rw [none]
      constructor
      · apply decides.cons
        intro d result
        cases result
      · intro later all
        exact now.later (past later all)
    · rw [found]
      constructor
      · apply decides.cons
        intro d result
        cases result
        rfl
      · intro later all
        exact refines'.later (past later all)

/-- The times of a client's calls, and of those that were let through, in order. -/
def Call.times (log : List Call) (client : List UInt8) : List Nat :=
  ((log.filter fun call => call.client = client).map Call.now).reverse

def Call.admitted (log : List Call) (client : List UInt8) : List Nat :=
  ((log.filter fun call => call.client = client ∧ call.result = some 0).map Call.now).reverse

theorem Decides.admitted (decides : Decides limits log)
    (found : ∀ call ∈ log, call.client = client → call.result ≠ none) : ideal limits log client =
        Gcra.after limits.emission limits.tolerance 0 (Call.times log client) ∧ Call.admitted log client =
        Gcra.admitted limits.emission limits.tolerance 0 (Call.times log client) := by
  induction log with
  | nil => exact ⟨rfl, rfl⟩
  | cons call earlier ih =>
    obtain ⟨tat, through⟩ := ih decides.tail fun other member =>
      found other (mem_cons_of_mem _ member)
    by_cases own : call.client = client
    · obtain ⟨d, result⟩ := Option.ne_none_iff_exists'.mp (found call mem_cons_self own)
      have decision := decides [] call earlier rfl d result
      rw [own, tat] at decision
      have times : Call.times (call :: earlier) client = Call.times earlier client ++ [call.now] := by
        simp [Call.times, own]
      have next : ideal limits (call :: earlier) client =
          Gcra.next limits.emission limits.tolerance (ideal limits earlier client) call.now := by
        simp only [ideal, result, own, update_self]
      rw [times, Gcra.admitted_concat, next, tat, ← through]
      constructor
      · rw [Gcra.after, Gcra.after, foldl_append]
        rfl
      · by_cases zero : d = 0
        · rw [← decision, if_pos zero]
          simp [Call.admitted, own, result, zero]
        · rw [← decision, if_neg zero]
          simp [Call.admitted, own, result, zero]
    · have times : Call.times (call :: earlier) client = Call.times earlier client := by simp [Call.times, own]
      have same : ideal limits (call :: earlier) client = ideal limits earlier client := by
        simp only [ideal]
        cases call.result with
        | none => rfl
        | some d => exact update_of_ne (fun equal => own equal.symm) _ _
      rw [times, same]
      refine ⟨tat, ?_⟩
      rw [← through]
      simp [Call.admitted, own]

/-- In every run whose times do not fall, whose clients have keys of their own and in which no arrival
time wraps: each client has at most one entry; every call that finds an entry decides as the ideal map;
a client whose calls all find an entry is let through at most as often in any interval as its length
and the tolerance allow; and a refusal returns the least wait after which the client is let through. -/
theorem check_refines_gcra (limits : Limits) (calls : List (List UInt8 × Nat)) (regular : Regular limits calls) :
    (∀ e e', ((run limits calls).1 e).key ≠ 0 →
        ((run limits calls).1 e).key = ((run limits calls).1 e').key → e = e') ∧ Decides limits (run limits calls).2 ∧
      (∀ client, (∀ call ∈ (run limits calls).2, call.client = client → call.result ≠ none) →
        ∀ first last, first ≤ last → ((Call.admitted (run limits calls).2 client).filter
            fun t => decide (first ≤ t ∧ t ≤ last)).length ≤ (last - first + limits.tolerance) / limits.emission + 1) ∧
      ∀ front client now back d t', calls = front ++ (client, now) :: back → 0 < d →
        (run limits front).1.check limits client now = (t', some d) →
          ∀ wait, (t'.check limits client (now + wait)).2 = some 0 ↔ d ≤ wait := by
  obtain ⟨decides, refines⟩ := run_refines regular (List.append_nil calls).symm
  refine ⟨?_, decides, ?_, ?_⟩
  · have bound : ∀ call ∈ calls, call.2 ≤ 2 ^ 64 := by
      intro call member
      have fits := regular.fits call member
      omega
    exact (refines (2 ^ 64) bound).unique
  · intro client found first last _
    rw [(decides.admitted found).2]
    exact Gcra.length_admitted_le limits.positive _ _ _ _ _
  · intro front client now back d t' split refused returned wait
    obtain ⟨member, before, distinct⟩ := regular.call split
    have here := (run_refines regular split).2 now before
    rcases here.check ⟨_, member, rfl⟩ distinct (regular.fits _ member) with
      none | ⟨t'', found, refines', e, entry, stays⟩
    · cases none.symm.trans returned
    · cases found.symm.trans returned
      have same := stays refused
      rw [refines'.check_entry entry, Option.some.injEq, Gcra.delay_least, Gcra.delay_congr same]

def smallLimits : Limits := ⟨1000000, 2000000, 8, 7, by decide, by decide⟩

def twoClients : List (List UInt8 × Nat) :=
  [([4, 10, 0, 0, 1], 5), ([4, 10, 0, 0, 1], 5), ([4, 10, 0, 0, 2], 6), ([4, 10, 0, 0, 1], 7),
    ([4, 10, 0, 0, 1], 8)]

theorem check_refines_gcra_twoClients : (run smallLimits twoClients).2.map Call.result =
        [some 999997, some 0, some 0, some 0, some 0] ∧ Decides smallLimits (run smallLimits twoClients).2 ∧
      ((Call.admitted (run smallLimits twoClients).2 [4, 10, 0, 0, 1]).filter
        fun t => decide (5 ≤ t ∧ t ≤ 8)).length ≤ 3 := by
  obtain ⟨-, decides, bound, -⟩ := check_refines_gcra smallLimits twoClients ⟨by decide, by decide +kernel, by decide⟩
  exact ⟨by decide +kernel, decides, bound _ (by decide +kernel) 5 8 (by decide)⟩

def endlessLimits : Limits := ⟨2 ^ 64 - 1, 0, 8, 7, by decide, by decide⟩

/-- The arrival time wraps: a client is let through twice at once, where once is the most. -/
theorem arrival_time_wraps : Call.admitted (run endlessLimits [([4, 10, 0, 0, 1], 1), ([4, 10, 0, 0, 1], 1)]).2
        [4, 10, 0, 0, 1] = [1, 1] ∧
      (1 - 1 + endlessLimits.tolerance) / endlessLimits.emission + 1 = 1 := by
  exact ⟨by decide +kernel, by decide⟩

end AvianCore.RateLimit
