import AvianCore.Executor.Loop

/-!
The order in which jobs run. The jobs that ran and those on the ring form one line that only grows at its end; a job
from another thread takes its place in it when the ring has run empty, not when it is handed over.
-/

namespace AvianCore.Executor
open AvianCore.Lib List

variable {J : Type}

theorem Ring.Holds.unique {r : Ring J} {queue queue' : List J} (holds : r.Holds queue) (other : r.Holds queue') :
    queue = queue' := by
  apply ext_getElem (holds.count.symm.trans other.count)
  intro i less less'
  have first := holds.jobs i _ (List.getElem?_eq_getElem less)
  rw [other.jobs i _ (List.getElem?_eq_getElem less')] at first
  exact (Option.some.inj first).symm

namespace Loop
variable {m m' m'' : Loop J}

/-- The later state has the jobs of the earlier one, and its line is a continuation. -/
structure Follows (m m' : Loop J) : Prop where
  pushed : m.pushed.Sublist m'.pushed
  handed : m.handed.Sublist m'.handed
  line : ∀ queue, m.executor.ring.Holds queue → ∃ queue' more, m'.executor.ring.Holds queue' ∧
    m'.ran ++ queue' = m.ran ++ queue ++ more

theorem Follows.trans (first : m.Follows m') (second : m'.Follows m'') : m.Follows m'' where
  pushed := first.pushed.trans second.pushed
  handed := first.handed.trans second.handed
  line queue holds := by
    obtain ⟨queue', more, holds', line⟩ := first.line queue holds
    obtain ⟨queue'', more', holds'', line'⟩ := second.line queue' holds'
    exact ⟨queue'', more ++ more', holds'', by rw [line', line, append_assoc]⟩

theorem Follows.still (ring : m'.executor.ring = m.executor.ring) (pushed : m'.pushed = m.pushed)
    (handed : m.handed.Sublist m'.handed) (ran : m'.ran = m.ran) : m.Follows m' where
  pushed := by rw [pushed]
  handed := handed
  line queue holds := ⟨queue, [], by rwa [ring], by rw [ran, append_nil]⟩

theorem Sound.follows_advance (sound : m.Sound) (next : m.advance = some m') : m.Follows m' := by
  unfold Loop.advance at next
  cases phase : m.phase with
  | idle | running left =>
    rw [phase] at next
    cases next
  | top left | leaving =>
    simp only [phase, Option.some.injEq] at next
    cases next
    exact .still rfl rfl (.refl _) rfl
  | found left =>
    simp only [phase, Option.some.injEq] at next
    cases next
    refine ⟨.refl _, .refl _, fun queue holds => ?_⟩
    exact ⟨_, m.executor.intake, holds_pushAll holds m.executor.intake, (append_assoc _ _ _).symm⟩
  | taking left =>
    simp only [phase, Option.map_eq_some_iff] at next
    obtain ⟨⟨job, ring⟩, popped, rfl⟩ := next
    refine ⟨.refl _, .refl _, fun queue holds => ?_⟩
    have filled := (sound.ready left phase).2
    rw [holds.count, length_pos_iff] at filled
    obtain ⟨first, rest, rfl⟩ := exists_cons_of_ne_nil filled
    obtain ⟨ring', takes, later⟩ := holds.pop
    rw [takes, Option.some.injEq, Prod.mk.injEq] at popped
    obtain ⟨rfl, rfl⟩ := popped
    exact ⟨rest, [], later, by simp⟩

theorem Sound.follows (sound : m.Sound) {event : Event J} (next : m.step event = some m') : m.Follows m' := by
  cases event with
  | enqueue job =>
    simp only [Loop.step] at next
    split_ifs at next
    cases next
    refine ⟨sublist_append_left _ _, .refl _, fun queue holds => ?_⟩
    exact ⟨_, [job], holds.push job, (append_assoc _ _ _).symm⟩
  | handOver job =>
    cases next
    exact .still rfl rfl (sublist_append_left _ _) rfl
  | drain budget =>
    simp only [Loop.step, Loop.drain] at next
    split_ifs at next <;> cases next <;> exact .still rfl rfl (.refl _) rfl
  | advance => exact sound.follows_advance next
  | jobEnds =>
    simp only [Loop.step] at next
    split at next <;> cases next
    exact .still rfl rfl (.refl _) rfl

theorem Sound.follows_run (sound : m.Sound) {events : List (Event J)} (done : events.foldlM Loop.step m = some m') :
    m.Follows m' := by
  induction events generalizing m with
  | nil =>
    cases done
    exact .still rfl rfl (.refl _) rfl
  | cons event events ih =>
    rw [foldlM_cons, Option.bind_eq_bind, Option.bind_eq_some_iff] at done
    obtain ⟨between, next, later⟩ := done
    exact (sound.follows next).trans (ih (sound.step next) later)

theorem Sound.line_nodup (sound : m.Sound) (apart : (m.pushed ++ m.handed).Nodup) {queue : List J}
    (holds : m.executor.ring.Holds queue) : (m.ran ++ queue).Nodup ∧
      ∀ j ∈ m.handed, j ∈ m.ran ++ queue ↔ j ∉ m.executor.intake := by
  obtain ⟨collected, queue', holds', split, merged⟩ := sound.kept
  cases holds.unique holds'
  have perm := merged.perm
  rw [split, ← append_assoc] at apart
  obtain ⟨distinct, -, disjoint⟩ := nodup_append.mp apart
  refine ⟨perm.nodup_iff.mpr distinct, fun j handed => ?_⟩
  rw [perm.mem_iff]
  constructor
  · exact fun there waits => disjoint j there j waits rfl
  · intro gone
    rw [split] at handed
    exact mem_append_right _ ((mem_append.mp handed).resolve_right gone)

/-- In any run, where the jobs are told apart: one that another thread handed over before the owner enqueued a
second runs before the second exactly if it had been collected by then. -/
theorem handed_first_iff (capacity : Nat) (before after : List (Event J)) {j k : J}
    (run : before.foldlM step (start capacity) = some m) (rest : (Event.enqueue k :: after).foldlM step m = some m')
    (apart : (m'.pushed ++ m'.handed).Nodup) (handed : j ∈ m.handed) (runs : k ∈ m'.ran) :
    (∃ earlier later, m'.ran = earlier ++ k :: later ∧ j ∈ earlier) ↔ j ∉ m.executor.intake := by
  have sound := (Sound.start capacity).run run
  have follows := sound.follows_run rest
  obtain ⟨collected, queue, holds, -⟩ := sound.kept
  rw [List.foldlM_cons, Option.bind_eq_bind, Option.bind_eq_some_iff] at rest
  obtain ⟨between, next, rest⟩ := rest
  have sound' := sound.step next
  simp only [step] at next
  split_ifs at next
  cases next
  obtain ⟨queue', more, holds', line⟩ := (sound'.follows_run rest).line _ (holds.push k)
  have distinct := ((sound'.run rest).line_nodup apart holds').1
  rw [← (sound.line_nodup (apart.sublist (follows.pushed.append follows.handed)) holds).2 j handed]
  -- the line has one place for `k`, behind all that was in it before
  have places : ∀ earlier later, m'.ran = earlier ++ k :: later → earlier = m.ran ++ queue := by
    intro earlier later split
    have same : earlier ++ k :: (later ++ queue') = (m.ran ++ queue) ++ k :: more := by
      rw [← List.cons_append, ← List.append_assoc, ← split, line]
      simp
    rw [split, List.append_assoc, List.cons_append] at distinct
    obtain ⟨-, fresh, disjoint⟩ := List.nodup_append.mp distinct
    exact ((List.append_cons_inj_of_notMem (fun there => disjoint k there k List.mem_cons_self rfl)
      (List.nodup_cons.mp fresh).1).mp same).1
  constructor
  · rintro ⟨earlier, later, split, there⟩
    rwa [places earlier later split] at there
  · intro there
    obtain ⟨earlier, later, split⟩ := List.append_of_mem runs
    exact ⟨earlier, later, split, by rwa [places earlier later split]⟩

/-- The job of another thread is collected into an empty ring, and runs first. -/
theorem handed_first_collected : ∃ m m' : Loop Nat,
    [Event.handOver 1, .drain 9, .advance, .advance, .advance].foldlM step (start 1) = some m ∧
    [Event.enqueue 2, .enqueue 3, .jobEnds, .advance, .advance].foldlM step m = some m' ∧ m'.ran = [1, 2] ∧
    ∃ earlier later, m'.ran = earlier ++ 2 :: later ∧ 1 ∈ earlier := by
  refine ⟨_, _, rfl, rfl, rfl, ?_⟩
  apply (handed_first_iff 1 [.handOver 1, .drain 9, .advance, .advance, .advance]
    [.enqueue 3, .jobEnds, .advance, .advance] rfl rfl ?_ ?_ ?_).mpr <;> decide

/-- Two jobs that the owner enqueues later run before it while the ring does not run empty. -/
theorem handed_overtaken : ∃ m m' : Loop Nat,
    [Event.enqueue 2, .drain 9, .advance, .advance, .handOver 1].foldlM step (start 1) = some m ∧
    [Event.enqueue 3, .jobEnds, .advance, .advance, .enqueue 4, .jobEnds, .advance, .advance].foldlM step m = some m' ∧
    m.handed = [1] ∧ m'.ran = [2, 3, 4] ∧ m'.executor.intake = [1] :=
  ⟨_, _, rfl, rfl, rfl, rfl, rfl⟩

end Loop

end AvianCore.Executor
