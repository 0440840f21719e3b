import AvianCore.Lib.Interleaving
import AvianCore.Lib.Machine

/-!
The executor of a loop's thread (`LoopExecutor.swift`): a ring that only this thread uses, a list that other threads
leave jobs on, and the drain that runs them. A job that runs may enqueue jobs and may call the drain again. Other
threads act between any two steps of the drain.
-/

namespace AvianCore.Executor
open AvianCore.Lib List Nat Option

/-- Cells are initialized or not; those behind the capacity are not there. -/
structure Ring (J : Type) where
  jobs : Nat → Option J
  capacity : Nat
  head : Nat
  count : Nat

section
variable {J : Type}

namespace Ring

/-- The smallest power of two that is not below the capacity asked for. -/
def ofCapacity (capacity : Nat) : Ring J := ⟨fun _ => none, doubleWhile (· < capacity) 62 1, 0, 0⟩

def slot (r : Ring J) (i : Nat) : Nat := (r.head + i) &&& (r.capacity - 1)

/-- Every job moves to a ring of twice the size, the oldest to its beginning. -/
def grow (r : Ring J) : Ring J where
  jobs := fun i => if i < r.count then r.jobs (r.slot i) else none
  capacity := r.capacity * 2
  head := 0
  count := r.count

def push (r : Ring J) (job : J) : Ring J :=
  let r := if r.count = r.capacity then r.grow else r
  { r with
    jobs := Function.update r.jobs (r.slot r.count) (some job)
    count := r.count + 1 }

/-- The job at the head is moved out of its cell, which has to be initialized. -/
def pop (r : Ring J) : Option (J × Ring J) :=
  (r.jobs r.head).map fun job =>
    (job, { r with
      jobs := Function.update r.jobs r.head none
      head := (r.head + 1) &&& (r.capacity - 1)
      count := r.count - 1 })

/-- The ring holds the jobs of a queue from its head on. -/
structure Holds (r : Ring J) (queue : List J) : Prop where
  power : ∃ k, r.capacity = 2 ^ k
  head_lt : r.head < r.capacity
  count_le : r.count ≤ r.capacity
  count : r.count = queue.length
  jobs : ∀ i job, queue[i]? = some job → r.jobs (r.slot i) = some job

variable {r : Ring J} {queue : List J}

theorem Holds.slot_eq (holds : r.Holds queue) (i : Nat) : r.slot i = (r.head + i) % r.capacity := by
  obtain ⟨k, power⟩ := holds.power
  unfold slot
  rw [power, and_two_pow_sub_one_eq_mod]

theorem Holds.slot_inj (holds : r.Holds queue) {i j : Nat} (less : i < r.capacity) (less' : j < r.capacity)
    (same : r.slot i = r.slot j) : i = j := by
  rw [holds.slot_eq, holds.slot_eq] at same
  have head := holds.head_lt
  rcases lt_or_ge (r.head + i) r.capacity with low | high
  · rcases lt_or_ge (r.head + j) r.capacity with low' | high'
    · rw [mod_eq_of_lt low, mod_eq_of_lt low'] at same
      omega
    · rw [mod_eq_of_lt low, mod_eq_sub_mod high', mod_eq_of_lt (by omega)] at same
      omega
  rcases lt_or_ge (r.head + j) r.capacity with low' | high'
  · rw [mod_eq_of_lt low', mod_eq_sub_mod high, mod_eq_of_lt (by omega)] at same
    omega
  rw [mod_eq_sub_mod high, mod_eq_sub_mod high', mod_eq_of_lt (by omega), mod_eq_of_lt (by omega)] at same
  omega

theorem ofCapacity_holds (capacity : Nat) : (ofCapacity capacity : Ring J).Holds [] := by
  obtain ⟨k, size⟩ := doubleWhile_eq (fun n => decide (n < capacity)) 62 1
  rw [one_mul] at size
  constructor
  · exact ⟨k, size⟩
  · show 0 < doubleWhile (fun n => decide (n < capacity)) 62 1
    rw [size]
    exact Nat.pow_pos (by decide)
  · exact zero_le _
  · rfl
  · intro i job found
    cases found

theorem Holds.grow (holds : r.Holds queue) : r.grow.Holds queue := by
  obtain ⟨k, power⟩ := holds.power
  have head := holds.head_lt
  have room := holds.count_le
  have grown : ∀ i, i < r.count → r.grow.slot i = i := by
    intro i less
    show (0 + i) &&& (r.capacity * 2 - 1) = i
    rw [power, ← pow_succ, and_two_pow_sub_one_eq_mod, zero_add, mod_eq_of_lt]
    rw [pow_succ]
    omega
  constructor
  · exact ⟨k + 1, by show r.capacity * 2 = _; rw [power, pow_succ]⟩
  · show 0 < r.capacity * 2
    omega
  · show r.count ≤ r.capacity * 2
    omega
  · exact holds.count
  · intro i job found
    have less : i < r.count := by
      rw [holds.count]
      exact (List.getElem?_eq_some_iff.mp found).1
    rw [grown i less]
    show (if i < r.count then r.jobs (r.slot i) else none) = some job
    rw [if_pos less]
    exact holds.jobs i job found

theorem Holds.push (holds : r.Holds queue) (job : J) : (r.push job).Holds (queue ++ [job]) := by
  -- after growing there is room
  obtain ⟨s, same, holds, room⟩ : ∃ s : Ring J, s = (if r.count = r.capacity then r.grow else r) ∧ s.Holds queue ∧
      s.count < s.capacity := by
    by_cases full : r.count = r.capacity
    · refine ⟨r.grow, (if_pos full).symm, holds.grow, ?_⟩
      have head := holds.head_lt
      show r.count < r.capacity * 2
      omega
    · have room := holds.count_le
      exact ⟨r, (if_neg full).symm, holds, by omega⟩
  unfold Ring.push
  rw [← same]
  dsimp only
  have places : ∀ i, ({ s with
      jobs := Function.update s.jobs (s.slot s.count) (some job)
      count := s.count + 1 } : Ring J).slot i = s.slot i := fun _ => rfl
  constructor
  · exact holds.power
  · exact holds.head_lt
  · exact room
  · show s.count + 1 = (queue ++ [job]).length
    rw [length_append, length_singleton, holds.count]
  · intro i other found
    rw [places]
    show Function.update s.jobs (s.slot s.count) (some job) (s.slot i) = some other
    rcases lt_or_ge i queue.length with old | new
    · rw [List.getElem?_append_left old] at found
      have less : i < s.count := by
        rw [holds.count]
        exact old
      have differ : s.slot i ≠ s.slot s.count := by
        intro same
        have := holds.slot_inj (by omega) room same
        omega
      rw [Function.update_of_ne differ]
      exact holds.jobs i other found
    · have last : i = queue.length := by
        have less := (List.getElem?_eq_some_iff.mp found).1
        rw [length_append, length_singleton] at less
        omega
      rw [last, List.getElem?_concat_length] at found
      rw [last, ← holds.count, Function.update_self]
      exact found

theorem Holds.pop {job : J} (holds : r.Holds (job :: queue)) : ∃ s, r.pop = some (job, s) ∧ s.Holds queue := by
  obtain ⟨k, power⟩ := holds.power
  have head := holds.head_lt
  have room := holds.count_le
  have count := holds.count
  rw [length_cons] at count
  have first : r.slot 0 = r.head := by rw [holds.slot_eq, add_zero, mod_eq_of_lt head]
  have found := holds.jobs 0 job rfl
  rw [first] at found
  unfold Ring.pop
  rw [found]
  refine ⟨_, rfl, ?_⟩
  have wraps : (r.head + 1) &&& (r.capacity - 1) = (r.head + 1) % r.capacity := by
    rw [power, and_two_pow_sub_one_eq_mod]
  have places : ∀ i, ({ r with
      jobs := Function.update r.jobs r.head none
      head := (r.head + 1) &&& (r.capacity - 1)
      count := r.count - 1 } : Ring J).slot i = r.slot (i + 1) := by
    intro i
    rw [holds.slot_eq]
    show ((r.head + 1) &&& (r.capacity - 1)) + i &&& (r.capacity - 1) = _
    rw [wraps, power, and_two_pow_sub_one_eq_mod, mod_add_mod]
    congr 1
    omega
  constructor
  · exact holds.power
  · show (r.head + 1) &&& (r.capacity - 1) < r.capacity
    rw [wraps]
    exact mod_lt _ (by omega)
  · show r.count - 1 ≤ r.capacity
    omega
  · show r.count - 1 = queue.length
    omega
  · intro i other here
    rw [places]
    show Function.update r.jobs r.head none (r.slot (i + 1)) = some other
    have less := (List.getElem?_eq_some_iff.mp here).1
    have differ : r.slot (i + 1) ≠ r.head := by
      intro same
      rw [← first] at same
      have := holds.slot_inj (by omega) (by omega) same
      omega
    rw [Function.update_of_ne differ]
    exact holds.jobs (i + 1) other here

end Ring

end

structure LoopExecutor (J : Type) where
  ring : Ring J
  /-- Jobs that other threads have left. -/
  intake : List J := []
  taken : List J := []
  handedOver : Bool := false
  draining : Bool := false

namespace LoopExecutor
variable {J : Type}

def push (e : LoopExecutor J) (job : J) : LoopExecutor J := { e with ring := e.ring.push job }

def handOver (e : LoopExecutor J) (job : J) : LoopExecutor J :=
  { e with intake := e.intake ++ [job], handedOver := true }

/-- Swaps the lists under the lock, and moves what other threads left onto the ring. -/
def collect (e : LoopExecutor J) : LoopExecutor J :=
  let e := { e with intake := e.taken, taken := e.intake, handedOver := false }
  { e with ring := e.taken.foldl Ring.push e.ring, taken := [] }

def hasWork (e : LoopExecutor J) : Bool := 0 < e.ring.count || e.handedOver

end LoopExecutor

/-- Where the drain of the owner's thread is, with the jobs it may still run. -/
inductive Phase
  | idle
  | top (left : Int)
  | found (left : Int)
  | taking (left : Int)
  | running (left : Int)
  | leaving

/-- The executor, with what has happened to it: the jobs of each kind in the order they came, and those that have
been run; for the outermost drain, how many had run before it and its budget; what the last drain returned. -/
structure Loop (J : Type) where
  executor : LoopExecutor J
  phase : Phase := .idle
  pushed : List J := []
  handed : List J := []
  ran : List J := []
  begun : Nat := 0
  budget : Int := 0
  returned : Option Bool := none

/-- What can happen next. `advance` is a step of the drain up to the next point where another thread can act. -/
inductive Event (J : Type)
  | enqueue (job : J)
  | handOver (job : J)
  | drain (budget : Int)
  | advance
  | jobEnds

namespace Loop
variable {J : Type} {m m' : Loop J}

def start (capacity : Nat) : Loop J := { executor := { ring := Ring.ofCapacity capacity } }

/-- The owner's thread runs code outside of the drain: between drains, and in jobs. -/
def outside (m : Loop J) : Bool :=
  match m.phase with
  | .idle | .running _ => true
  | _ => false

def drain (m : Loop J) (budget : Int) : Loop J :=
  if m.executor.draining then { m with returned := some false }
  else { m with
    executor := { m.executor with draining := true }
    phase := .top budget, begun := m.ran.length, budget := budget }

/-- A step of the loop of `drain(budget:)`; none if a cell is read that holds no job. -/
def advance (m : Loop J) : Option (Loop J) :=
  match m.phase with
  | .idle | .running _ => none
  | .top left =>
    some { m with phase :=
      if left ≤ 0 then .leaving
      else if m.executor.ring.count = 0 then if m.executor.handedOver then .found left else .leaving
      else .taking left }
  | .found left =>
    let e := m.executor.collect
    some { m with executor := e, phase := if e.ring.count = 0 then .leaving else .taking left }
  | .taking left =>
    m.executor.ring.pop.map fun (job, ring) => { m with
      executor := { m.executor with ring := ring }, ran := m.ran ++ [job], phase := .running (left - 1) }
  | .leaving =>
    let e := { m.executor with draining := false }
    some { m with executor := e, returned := some e.hasWork, phase := .idle }

def step (m : Loop J) : Event J → Option (Loop J)
  | .enqueue job =>
    if m.outside then some { m with executor := m.executor.push job, pushed := m.pushed ++ [job] } else none
  | .handOver job => some { m with executor := m.executor.handOver job, handed := m.handed ++ [job] }
  | .drain budget => if m.outside then some (m.drain budget) else none
  | .advance => m.advance
  | .jobEnds =>
    match m.phase with
    | .running left => some { m with phase := .top left }
    | _ => none

def allowance (m : Loop J) : Int :=
  match m.phase with
  | .top left | .found left | .taking left | .running left => left
  | .idle | .leaving => 0

structure Sound (m : Loop J) : Prop where
  kept : ∃ collected queue, m.executor.ring.Holds queue ∧ m.handed = collected ++ m.executor.intake ∧
    Interleaving m.pushed collected (m.ran ++ queue)
  flag : m.executor.handedOver = true ↔ m.executor.intake ≠ []
  taken : m.executor.taken = []
  draining : m.executor.draining = true ↔ m.phase ≠ .idle
  within : m.ran.length + m.allowance.toNat ≤ m.begun + m.budget.toNat
  ready : ∀ left, m.phase = .taking left → 0 < left ∧ 0 < m.executor.ring.count
  found : ∀ left, m.phase = .found left → 0 < left

theorem Sound.start (capacity : Nat) : (start capacity : Loop J).Sound where
  kept := ⟨[], [], Ring.ofCapacity_holds capacity, rfl, .nil⟩
  flag := by simp [Loop.start]
  taken := rfl
  draining := by simp [Loop.start]
  within := le_refl _
  ready left at' := by cases at'
  found left at' := by cases at'

theorem holds_pushAll {r : Ring J} {queue : List J} (holds : r.Holds queue) (jobs : List J) :
    (jobs.foldl Ring.push r).Holds (queue ++ jobs) := by
  induction jobs generalizing r queue with
  | nil =>
    rw [append_nil]
    exact holds
  | cons job jobs ih =>
    have later := ih (holds.push job)
    rw [append_assoc] at later
    exact later

theorem Sound.enqueue (sound : m.Sound) (outside : m.outside = true) (job : J) :
    ({ m with executor := m.executor.push job, pushed := m.pushed ++ [job] } : Loop J).Sound := by
  obtain ⟨collected, queue, holds, split, merged⟩ := sound.kept
  refine ⟨⟨collected, queue ++ [job], holds.push job, split, ?_⟩, sound.flag, sound.taken, sound.draining, sound.within,
    ?_, sound.found⟩
  · rw [← append_assoc]
    exact merged.snoc_left job
  · intro left taking
    rw [Loop.outside, show m.phase = _ from taking] at outside
    cases outside

theorem Sound.handOver (sound : m.Sound) (job : J) :
    ({ m with executor := m.executor.handOver job, handed := m.handed ++ [job] } : Loop J).Sound := by
  obtain ⟨collected, queue, holds, split, merged⟩ := sound.kept
  refine ⟨⟨collected, queue, holds, ?_, merged⟩, ?_, sound.taken, sound.draining, sound.within, sound.ready, sound.found⟩
  · show m.handed ++ [job] = collected ++ (m.executor.intake ++ [job])
    rw [split, append_assoc]
  · simp [LoopExecutor.handOver]

theorem Sound.drain (sound : m.Sound) (budget : Int) : (m.drain budget).Sound := by
  unfold Loop.drain
  split_ifs with draining
  · exact ⟨sound.kept, sound.flag, sound.taken, sound.draining, sound.within, sound.ready, sound.found⟩
  · exact ⟨sound.kept, sound.flag, sound.taken, by simp, le_refl _, by simp, by simp⟩

theorem Sound.enter (sound : m.Sound) (busy : m.phase ≠ .idle) {phase : Phase} (there : phase ≠ .idle)
    (within : ({ m with phase := phase } : Loop J).allowance.toNat ≤ m.allowance.toNat)
    (ready : ∀ left, phase = .taking left → 0 < left ∧ 0 < m.executor.ring.count)
    (found : ∀ left, phase = .found left → 0 < left) : ({ m with phase := phase } : Loop J).Sound where
  kept := sound.kept
  flag := sound.flag
  taken := sound.taken
  draining := iff_of_true (sound.draining.mpr busy) there
  within := (Nat.add_le_add_left within _).trans sound.within
  ready := ready
  found := found

theorem Sound.collect (sound : m.Sound) {left : Int} (phase : m.phase = .found left) :
    ({ m with executor := m.executor.collect } : Loop J).Sound := by
  obtain ⟨collected, queue, holds, split, merged⟩ := sound.kept
  have more : m.executor.collect.ring.Holds (queue ++ m.executor.intake) := holds_pushAll holds m.executor.intake
  refine ⟨⟨collected ++ m.executor.intake, queue ++ m.executor.intake, more, ?_, ?_⟩, ?_, rfl, sound.draining,
    sound.within, by simp [phase], sound.found⟩
  · show m.handed = collected ++ m.executor.intake ++ m.executor.taken
    rw [sound.taken, append_nil, split]
  · rw [← append_assoc]
    exact merged.append_right m.executor.intake
  · simp [LoopExecutor.collect, sound.taken]

theorem Sound.take (sound : m.Sound) {left : Int} (phase : m.phase = .taking left) {job : J} {ring : Ring J}
    (popped : m.executor.ring.pop = some (job, ring)) :
    ({ m with executor := { m.executor with ring := ring }, ran := m.ran ++ [job], phase := .running (left - 1) } :
      Loop J).Sound := by
  obtain ⟨collected, queue, holds, split, merged⟩ := sound.kept
  obtain ⟨positive, filled⟩ := sound.ready left phase
  have within := sound.within
  have busy := sound.draining
  simp only [allowance, phase] at within busy
  rw [holds.count, length_pos_iff] at filled
  obtain ⟨first, rest, rfl⟩ := exists_cons_of_ne_nil filled
  obtain ⟨ring', takes, later⟩ := holds.pop
  rw [takes, Option.some.injEq, Prod.mk.injEq] at popped
  obtain ⟨rfl, rfl⟩ := popped
  refine ⟨⟨collected, rest, later, split, ?_⟩, sound.flag, sound.taken, by simpa using busy, ?_, by simp, by simp⟩
  · rw [append_assoc]
    exact merged
  · show (m.ran ++ [first]).length + (left - 1).toNat ≤ m.begun + m.budget.toNat
    rw [length_append, length_singleton]
    omega

theorem Sound.advance (sound : m.Sound) (next : m.advance = some m') : m'.Sound := by
  unfold Loop.advance at next
  cases phase : m.phase with
  | idle =>
    rw [phase] at next
    cases next
  | running left =>
    rw [phase] at next
    cases next
  | top left =>
    simp only [phase, Option.some.injEq] at next
    cases next
    refine sound.enter (by simp [phase]) ?_ ?_ ?_ ?_
    · split_ifs <;> simp
    · simp only [allowance, phase]
      split_ifs <;> simp
    · intro other taking
      split_ifs at taking with spent empty
      cases taking
      exact ⟨by omega, pos_of_ne_zero empty⟩
    intro other found
    split_ifs at found
    cases found
    omega
  | found left =>
    simp only [phase, Option.some.injEq] at next
    cases next
    refine (sound.collect phase).enter (by simp [phase]) ?_ ?_ ?_ ?_
    · split_ifs <;> simp
    · simp only [allowance, phase]
      split_ifs <;> simp
    · intro other taking
      split_ifs at taking with empty
      cases taking
      exact ⟨sound.found _ phase, pos_of_ne_zero empty⟩
    · intro other found
      split_ifs at found
  | taking left =>
    simp only [phase, map_eq_some_iff] at next
    obtain ⟨⟨job, ring⟩, popped, rfl⟩ := next
    exact sound.take phase popped
  | leaving =>
    simp only [phase, Option.some.injEq] at next
    cases next
    have within := sound.within
    simp only [allowance, phase] at within
    exact ⟨sound.kept, sound.flag, sound.taken, by simp, within, by simp, by simp⟩

theorem Sound.step (sound : m.Sound) {event : Event J} (next : m.step event = some m') : m'.Sound := by
  cases event with
  | enqueue job =>
    simp only [Loop.step] at next
    split_ifs at next with outside
    cases next
    exact sound.enqueue outside job
  | handOver job =>
    cases next
    exact sound.handOver job
  | drain budget =>
    simp only [Loop.step] at next
    split_ifs at next
    cases next
    exact sound.drain budget
  | advance => exact sound.advance next
  | jobEnds =>
    cases phase : m.phase with
    | running left =>
      simp only [Loop.step, phase] at next
      cases next
      exact sound.enter (by simp [phase]) (by simp) (by simp [allowance, phase]) (by simp) (by simp)
    | _ =>
      simp only [Loop.step, phase] at next
      cases next

theorem Sound.run (sound : m.Sound) {events : List (Event J)} (done : events.foldlM Loop.step m = some m') : m'.Sound := by
  induction events generalizing m with
  | nil =>
    cases done
    exact sound
  | cons event events ih =>
    rw [foldlM_cons, bind_eq_bind, bind_eq_some_iff] at done
    obtain ⟨between, next, later⟩ := done
    exact ih (sound.step next) later

theorem Sound.waiting (sound : m.Sound) : ∃ waiting, Interleaving m.pushed m.handed (m.ran ++ waiting) ∧
    (m.executor.hasWork = true ↔ waiting ≠ []) := by
  obtain ⟨collected, queue, holds, split, merged⟩ := sound.kept
  refine ⟨queue ++ m.executor.intake, ?_, ?_⟩
  · rw [split, ← append_assoc]
    exact merged.append_right m.executor.intake
  · rw [LoopExecutor.hasWork, Bool.or_eq_true, decide_eq_true_iff, holds.count, sound.flag, length_pos_iff,
      ← not_and_or, ← append_eq_nil_iff]

theorem Sound.advances (sound : m.Sound) (inside : m.outside = false) : ∃ next, m.advance = some next := by
  rw [← isSome_iff_exists]
  unfold Loop.advance
  cases phase : m.phase with
  | idle | running left => simp [outside, phase] at inside
  | top left | found left | leaving => rfl
  | taking left =>
    obtain ⟨collected, queue, holds, -, -⟩ := sound.kept
    have filled := (sound.ready left phase).2
    rw [holds.count, length_pos_iff] at filled
    obtain ⟨job, rest, rfl⟩ := exists_cons_of_ne_nil filled
    obtain ⟨ring, takes, -⟩ := holds.pop
    simp only [takes, map_some, isSome_some]

/-- After any run of a new executor, whatever the threads did: the jobs that came, from the owner and from others
each in order, are those that have been run, followed by some that wait; there are such exactly if `hasWork` says
so. The drain never reads an empty cell, runs no more jobs than its budget, and returns whether a job waits; called
from a job it returns false and does nothing. -/
theorem executor_keeps_jobs (capacity : Nat) (events : List (Event J))
    (run : events.foldlM step (start capacity) = some m) :
    (∃ waiting, Interleaving m.pushed m.handed (m.ran ++ waiting) ∧ (m.executor.hasWork = true ↔ waiting ≠ []) ∧
      ∀ next, m.phase = .leaving → m.step .advance = some next → next.returned = some (decide (waiting ≠ []))) ∧
    m.ran.length ≤ m.begun + m.budget.toNat ∧
    (m.outside = false → ∃ next, m.step .advance = some next) ∧
    ∀ budget left, m.phase = .running left → m.step (.drain budget) = some { m with returned := some false } := by
  have sound := (Sound.start capacity).run run
  obtain ⟨waiting, merged, work⟩ := sound.waiting
  refine ⟨⟨waiting, merged, work, ?_⟩, ?_, sound.advances, ?_⟩
  · intro next leaving done
    simp only [step, advance, leaving, Option.some.injEq] at done
    cases done
    have same : m.executor.hasWork = decide (waiting ≠ []) := by rw [Bool.eq_iff_iff, work, decide_eq_true_iff]
    exact congrArg some same
  · have within := sound.within
    omega
  · intro budget left running
    have busy : m.executor.draining = true := sound.draining.mpr (by rw [running]; simp)
    simp only [step, outside, running, if_true, drain, busy]

/-- A job from another thread and one of the owner's, with a budget for one. -/
theorem executor_keeps_jobs_two : ∃ m : Loop Nat,
    [Event.handOver 1, .enqueue 2, .drain 1, .advance, .advance, .jobEnds, .advance, .advance].foldlM step (start 1) =
      some m ∧ m.ran = [2] ∧ m.returned = some true ∧ m.ran.length ≤ m.begun + m.budget.toNat := by
  refine ⟨_, rfl, rfl, rfl, ?_⟩
  exact (executor_keeps_jobs 1 [Event.handOver 1, .enqueue 2, .drain 1, .advance, .advance, .jobEnds, .advance, .advance]
    rfl).2.1

end Loop

end AvianCore.Executor
