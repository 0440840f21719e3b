import AvianCore.Quic.AckOnly

/-!
What the timers do out of turn: the loss timer gives up packets that were sent after everything acknowledged, a
timeout counts as a probe whatever it was set for, and the time a close is drained is counted from a close packet
that may never have been sent.
-/

namespace AvianCore.Quic
open List QUICRecovery

namespace QUICLossDetection
variable {space : QUICPacketSpace} {recovery : QUICRecovery} {nowMs : Nat} {packet : QUICSentPacket}

def Overtaken (space : QUICPacketSpace) (packet : QUICSentPacket) : Prop :=
  ∃ largest ∈ space.largestAckedPacket, packet.packetNumber < largest

/-- Only packets sent before an acknowledged one are given up, and the timer is set for no other. -/
structure KeepsOrder (space : QUICPacketSpace) (recovery : QUICRecovery) (nowMs : Nat) : Prop where
  lost : ∀ packet ∈ (onLossTimer space recovery nowMs).1, Overtaken space packet
  kept : ∀ packet ∈ space.unsettled, ¬ Overtaken space packet →
    packet ∈ (onLossTimer space recovery nowMs).2.1.unsettled
  timer : ∀ packet, (onLossTimer space recovery nowMs).2.1.unsettled.head? = some packet →
    ¬ Overtaken space packet → (onLossTimer space recovery nowMs).2.1.lossTimeMs = 0

theorem onLossTimer_unsettled : (onLossTimer space recovery nowMs).2.1.unsettled =
    space.unsettled.dropWhile (isOverdue space.largestAckedPacket recovery.lossDelayMs nowMs) := by
  unfold onLossTimer
  extract_lets delay lost counted advanced after
  have behind : after.unsettled = space.sent.drop (space.sentHead + lost.length) :=
    QUICPacketSpace.advanceHead_unsettled counted (Nat.le_add_right _ _)
  have whole : lost ++ space.unsettled.dropWhile (isOverdue space.largestAckedPacket delay nowMs) = space.unsettled :=
    takeWhile_append_dropWhile
  show after.unsettled = _
  rw [behind, ← drop_drop]
  show space.unsettled.drop lost.length = _
  conv_lhs => rw [← whole, drop_left]

theorem onLossTimer_armed (oldest : (onLossTimer space recovery nowMs).2.1.unsettled.head? = some packet) :
    (onLossTimer space recovery nowMs).2.1.lossTimeMs = packet.sentAtMs + recovery.lossDelayMs := by
  have first : (onLossTimer space recovery nowMs).2.1.sent[(onLossTimer space recovery nowMs).2.1.sentHead]? =
      some packet := by
    rw [← List.head?_drop]
    exact oldest
  simp only [onLossTimer] at first ⊢
  rw [first]

/-- The rule is kept exactly if before every outstanding packet that nothing acknowledged overtakes there is one
that is neither old enough nor far enough behind. -/
theorem loss_timer_iff (space : QUICPacketSpace) (recovery : QUICRecovery) (nowMs : Nat) :
    KeepsOrder space recovery nowMs ↔ ∀ front packet behind, space.unsettled = front ++ packet :: behind →
      ¬ Overtaken space packet → ∃ earlier ∈ front,
        isOverdue space.largestAckedPacket recovery.lossDelayMs nowMs earlier = false := by
  generalize overdue : isOverdue space.largestAckedPacket recovery.lossDelayMs nowMs = late
  have left : (onLossTimer space recovery nowMs).2.1.unsettled = space.unsettled.dropWhile late := by
    rw [onLossTimer_unsettled, overdue]
  have given : (onLossTimer space recovery nowMs).1 = space.unsettled.takeWhile late := by
    rw [← overdue]
    rfl
  have whole : space.unsettled.takeWhile late ++ space.unsettled.dropWhile late = space.unsettled :=
    List.takeWhile_append_dropWhile
  constructor
  · intro keeps front packet behind split above
    by_contra none
    have all : ∀ earlier ∈ front, late earlier = true := by
      intro earlier member
      by_contra early
      exact none ⟨earlier, member, Bool.eq_false_iff.mpr early⟩
    cases own : late packet with
    | true =>
      apply above (keeps.lost packet _)
      rw [given, split, List.takeWhile_append_of_pos all, List.takeWhile_cons_of_pos own]
      exact List.mem_append_right _ List.mem_cons_self
    | false =>
      have oldest : (onLossTimer space recovery nowMs).2.1.unsettled.head? = some packet := by
        rw [left, split, List.dropWhile_append_of_pos all, List.dropWhile_cons_of_neg (by rw [own]; decide)]
        rfl
      have armed := onLossTimer_armed oldest
      rw [keeps.timer packet oldest above] at armed
      have positive : 1 ≤ recovery.lossDelayMs := le_max_right _ _
      omega
  · intro guarded
    have lost : ∀ packet ∈ space.unsettled.takeWhile late, Overtaken space packet := by
      intro packet member
      by_contra above
      obtain ⟨front, rest, split⟩ := List.append_of_mem member
      rw [split, List.append_assoc, List.cons_append] at whole
      obtain ⟨earlier, inside, early⟩ := guarded front packet _ whole.symm above
      have before : earlier ∈ space.unsettled.takeWhile late := by
        rw [split]
        exact List.mem_append_left _ inside
      rw [List.mem_takeWhile_imp before] at early
      cases early
    refine ⟨by rw [given]; exact lost, ?_, ?_⟩
    · intro packet member above
      rw [← whole, List.mem_append] at member
      rw [left]
      exact member.resolve_left fun gone => above (lost packet gone)
    · intro packet oldest above
      rw [left] at oldest
      obtain ⟨rest, split⟩ := List.head?_eq_some_iff.mp oldest
      rw [split] at whole
      obtain ⟨earlier, inside, early⟩ := guarded _ packet rest whole.symm above
      rw [List.mem_takeWhile_imp inside] at early
      cases early

/-- A packet with an acknowledged one behind it. -/
theorem loss_timer_overtaken :
    KeepsOrder { sent := [⟨4, 0, 100, true, true, {}, none⟩], largestAckedPacket := some 5 } {} 1000 :=
  (loss_timer_iff _ _ _).mpr (by
    intro front packet behind split above
    obtain ⟨rfl, rfl, rfl⟩ : front = [] ∧ packet = ⟨4, 0, 100, true, true, {}, none⟩ ∧ behind = [] := by
      cases front with
      | nil => cases split; exact ⟨rfl, rfl, rfl⟩
      | cons first rest =>
        have lengths := congrArg List.length split
        simp [QUICPacketSpace.unsettled] at lengths
    exact absurd ⟨5, rfl, by decide⟩ above)

/-- Before anything is acknowledged, packets are given up by their age. -/
theorem loss_timer_unacknowledged : ¬ KeepsOrder { sent := [⟨4, 0, 100, true, true, {}, none⟩] } {} 1000 := by
  intro keeps
  obtain ⟨largest, none, -⟩ := keeps.lost ⟨4, 0, 100, true, true, {}, none⟩ (by decide)
  cases none

end QUICLossDetection

namespace QUICConnection
variable {c : QUICConnection} {nowMs : Nat}

def Due (deadline nowMs : Nat) : Prop := deadline ≠ 0 ∧ deadline ≤ nowMs

/-- A probe is counted only when the probe deadline has come, and a timeout for an acknowledgement alone
does nothing else. -/
structure ProbesInTime (c : QUICConnection) (nowMs : Nat) : Prop where
  probe : (c.onTimeout nowMs).recovery.ptoCount ≠ c.recovery.ptoCount → Due c.probeDeadline nowMs
  acknowledgement : (∃ level, Due (c.spaces.get level).ackDeadlineMs nowMs) →
    (∀ level, ¬ Due (c.spaces.get level).lossTimeMs nowMs) → ¬ Due c.probeDeadline nowMs →
    c.isIdle nowMs = false → c.onTimeout nowMs = levels.foldl (releaseAck nowMs) c

theorem releaseAck_keeps (nowMs : Nat) (c : QUICConnection) (level other : QUICLevel) :
    (releaseAck nowMs c level).recovery = c.recovery ∧
      ((releaseAck nowMs c level).spaces.get other).lossTimeMs = (c.spaces.get other).lossTimeMs := by
  unfold releaseAck
  extract_lets space
  split_ifs with due
  · refine ⟨rfl, ?_⟩
    by_cases same : other = level
    · rw [same, PerLevel.get_set_self]
    · rw [PerLevel.get_set_ne _ same]
  · exact ⟨rfl, rfl⟩

theorem expireLoss_idle {s : QUICConnection × Bool} {level : QUICLevel}
    (early : ¬ Due (s.1.spaces.get level).lossTimeMs nowMs) : expireLoss nowMs s level = s := by
  unfold expireLoss
  exact if_neg early

theorem expireLoss_keeps (nowMs : Nat) (s : QUICConnection × Bool) (level : QUICLevel) :
    (expireLoss nowMs s level).1.recovery.ptoCount = s.1.recovery.ptoCount ∧
      ∀ other, other ≠ level → (expireLoss nowMs s level).1.spaces.get other = s.1.spaces.get other := by
  unfold expireLoss
  extract_lets current space
  split_ifs with due
  · split
    next lost after recovery done =>
      extract_lets c1
      have each : Still c1 (lost.foldl (fun c packet => c.onPacketLostPublic packet level) c1) :=
        still_overlooks.foldl _ (fun c packet => still_overlooks.onPacketLostPublic c packet level) _ c1
      have recovered : recovery.ptoCount = current.recovery.ptoCount := by
        have same := congrArg (fun done => done.2.2) done
        simp only [QUICLossDetection.onLossTimer, onPacketsLost] at same
        rw [← same]
        split_ifs <;> rfl
      refine ⟨(congrArg (fun a => a.recovery.ptoCount) each).trans recovered, fun other differs => ?_⟩
      have spaces := congrArg (fun a => a.spaces.get other) each
      exact spaces.trans (PerLevel.get_set_ne _ differs _)
  · exact ⟨rfl, fun _ _ => rfl⟩

variable {s : QUICConnection × Bool}

theorem expireLoss_flag {level : QUICLevel} (fired : s.2 = true ∨ Due (s.1.spaces.get level).lossTimeMs nowMs) :
    (expireLoss nowMs s level).2 = true := by
  unfold expireLoss
  extract_lets current space
  split_ifs with due
  · rfl
  · exact fired.resolve_right due

theorem expireLoss_levels (nowMs : Nat) (c : QUICConnection) :
    (levels.foldl (expireLoss nowMs) (c, false)).1.recovery.ptoCount = c.recovery.ptoCount ∧
      ((∀ level, ¬ Due (c.spaces.get level).lossTimeMs nowMs) →
        levels.foldl (expireLoss nowMs) (c, false) = (c, false)) ∧
      ((∃ level, Due (c.spaces.get level).lossTimeMs nowMs) →
        (levels.foldl (expireLoss nowMs) (c, false)).2 = true) := by
  simp only [levels, foldl_cons, foldl_nil]
  refine ⟨?_, ?_, ?_⟩
  · rw [(expireLoss_keeps ..).1, (expireLoss_keeps ..).1, (expireLoss_keeps ..).1]
  · intro early
    have idle := fun level => @expireLoss_idle nowMs (c, false) level (early level)
    rw [idle, idle, idle]
  · rintro ⟨level, due⟩
    cases level with
    | initial => exact expireLoss_flag (.inl (expireLoss_flag (.inl (expireLoss_flag (.inr due)))))
    | handshake =>
      refine expireLoss_flag (.inl (expireLoss_flag (.inr ?_)))
      rw [(expireLoss_keeps ..).2 .handshake (by decide)]
      exact due
    | application =>
      refine expireLoss_flag (.inr ?_)
      rw [(expireLoss_keeps ..).2 .application (by decide), (expireLoss_keeps ..).2 .application (by decide)]
      exact due

theorem releaseAck_levels (nowMs : Nat) (c : QUICConnection) (other : QUICLevel) :
    (levels.foldl (releaseAck nowMs) c).recovery = c.recovery ∧
      ((levels.foldl (releaseAck nowMs) c).spaces.get other).lossTimeMs = (c.spaces.get other).lossTimeMs := by
  simp only [levels, foldl_cons, foldl_nil]
  constructor
  · rw [(releaseAck_keeps _ _ _ other).1, (releaseAck_keeps _ _ _ other).1, (releaseAck_keeps _ _ _ other).1]
  · rw [(releaseAck_keeps ..).2, (releaseAck_keeps ..).2, (releaseAck_keeps ..).2]

theorem probe_ptoCount (c : QUICConnection) : c.probe.recovery.ptoCount = c.recovery.ptoCount + 1 := by
  have kept : ∀ (levels : List QUICLevel) (s : QUICConnection × Bool),
      (levels.foldl resendCrypto s).1.recovery = s.1.recovery := by
    intro levels
    induction levels with
    | nil => exact fun _ => rfl
    | cons level rest ih =>
      intro s
      rw [foldl_cons, ih]
      unfold resendCrypto
      extract_lets current stream
      split_ifs <;> rfl
  have resent := kept levels ({ c with recovery := c.recovery.onProbeTimeout }, false)
  unfold probe
  extract_lets c1
  split
  next c2 done =>
    rw [done] at resent
    exact congrArg ptoCount resent
  next c2 done =>
    rw [done] at resent
    exact congrArg ptoCount resent

theorem onTimeout_ptoCount (alive : c.status.isClosing = false) :
    (c.onTimeout nowMs).recovery.ptoCount ≠ c.recovery.ptoCount ↔
      c.isIdle nowMs = false ∧ ∀ level, ¬ Due (c.spaces.get level).lossTimeMs nowMs := by
  unfold onTimeout
  split
  next drained =>
    rw [drained] at alive
    cases alive
  next closing =>
    rw [closing] at alive
    cases alive
  next notDrained notClosing =>
    cases idle : c.isIdle nowMs with
    | true =>
      rw [if_pos rfl]
      exact iff_of_false (fun changed => changed rfl) (fun both => by cases both.1)
    | false =>
      rw [if_neg Bool.false_ne_true]
      extract_lets released
      have kept : released.recovery = c.recovery := (releaseAck_levels nowMs c .initial).1
      have times : ∀ level, (released.spaces.get level).lossTimeMs = (c.spaces.get level).lossTimeMs :=
        fun level => (releaseAck_levels nowMs c level).2
      clear_value released
      obtain ⟨count, quiet, fired⟩ := expireLoss_levels nowMs released
      rw [kept] at count
      simp only [times] at quiet fired
      by_cases early : ∀ level, ¬ Due (c.spaces.get level).lossTimeMs nowMs
      · refine iff_of_true ?_ ⟨rfl, early⟩
        split
        next after done =>
          rw [quiet early] at done
          cases done
        next after done =>
          rw [quiet early] at done
          cases done
          rw [probe_ptoCount, kept]
          omega
      · push Not at early
        have flag := fired early
        refine iff_of_false (not_not.mpr ?_) (fun both => absurd both.2 (by push Not; exact early))
        split
        next after done =>
          rw [done] at count
          exact count
        next after done =>
          rw [done] at flag
          cases flag

/-- Timeouts probe in time exactly if the connection has been idle for too long, a packet has timed out, or the
probe deadline has come. -/
theorem probes_in_time_iff (alive : c.status.isClosing = false) : ProbesInTime c nowMs ↔
    c.isIdle nowMs = true ∨ (∃ level, Due (c.spaces.get level).lossTimeMs nowMs) ∨ Due c.probeDeadline nowMs := by
  have counts := @onTimeout_ptoCount c nowMs alive
  constructor
  · intro inTime
    by_contra none
    push Not at none
    obtain ⟨idle, early, notDue⟩ := none
    exact notDue (inTime.probe (counts.mpr ⟨by simpa using idle, early⟩))
  · intro fired
    constructor
    · intro counted
      obtain ⟨idle, early⟩ := counts.mp counted
      rcases fired with silent | ⟨level, due⟩ | due
      · cases idle.symm.trans silent
      · exact absurd due (early level)
      · exact due
    · intro _ early notDue idle
      rcases fired with silent | ⟨level, due⟩ | due
      · cases idle.symm.trans silent
      · exact absurd due (early level)
      · exact absurd due notDue

/-- A new connection at its probe deadline. -/
theorem probes_in_time_deadline : ProbesInTime World.start.conn 997 :=
  (@probes_in_time_iff World.start.conn 997 (by decide +kernel)).mpr (.inr (.inr (by
    unfold Due
    decide +kernel)))

/-- A new connection counts a probe one millisecond after it was made. -/
theorem probes_too_early : ¬ ProbesInTime World.start.conn 1 := by
  intro inTime
  have early : ¬ Due World.start.conn.probeDeadline 1 := by
    unfold Due
    decide +kernel
  exact early (inTime.probe (by decide +kernel))

end QUICConnection

/-- What may be called on a connection that is closing. -/
inductive ClosingCall
  | nextDatagram (capacity nowMs : Nat)
  | onTimeout (nowMs : Nat)

def ClosingCall.nowMs : ClosingCall → Nat
  | .nextDatagram _ nowMs => nowMs
  | .onTimeout nowMs => nowMs

namespace QUICConnection
variable (P : Primitives)

def afterCall (s : QUICConnection × Bool) : ClosingCall → QUICConnection × Bool
  | .nextDatagram capacity nowMs =>
    ((s.1.nextDatagram P capacity nowMs).1, s.2 || decide (0 < (s.1.nextDatagram P capacity nowMs).2.count))
  | .onTimeout nowMs => (s.1.onTimeout nowMs, s.2)

/-- After a close at a time, whatever is called later, the connection is not drained before a datagram has been
produced, which is the close, or three probe timeouts have passed. -/
def LingersAfter (c closed : QUICConnection) (closedAtMs : Nat) : Prop :=
  ∀ (calls : List ClosingCall) (call : ClosingCall), (∀ earlier ∈ calls, closedAtMs ≤ earlier.nowMs) →
    closedAtMs ≤ call.nowMs → (calls.foldl (afterCall P) (closed, false)).1.status ≠ .drained →
    (afterCall P (calls.foldl (afterCall P) (closed, false)) call).1.status = .drained →
    (afterCall P (calls.foldl (afterCall P) (closed, false)) call).2 = true ∨
      closedAtMs + 3 * c.recovery.ptoMs true ≤ call.nowMs

section
variable {P} {c : QUICConnection}

theorem buildClose_silent_or_sent (c : QUICConnection) (budget nowMs : Nat) : c.buildClose P budget nowMs = (c, {}) ∨
    0 < (c.buildClose P budget nowMs).2.count ∧ (c.buildClose P budget nowMs).1.status = c.status := by
  unfold buildClose
  extract_lets level
  split_ifs
  · exact .inl rfl
  split
  · exact .inl rfl
  split
  · exact .inl rfl
  next sealed done =>
    have long := length_sealPacket_ge done
    exact .inr ⟨by show 0 < sealed.length; omega, rfl⟩

theorem nextDatagram_closing (closing : c.status.isClosing = true) (capacity nowMs : Nat) :
    c.nextDatagram P capacity nowMs = (c, {}) ∨
      0 < (c.nextDatagram P capacity nowMs).2.count ∧ (c.nextDatagram P capacity nowMs).1.status = c.status := by
  unfold nextDatagram
  extract_lets budget
  split_ifs with drained small closes
  · exact .inl rfl
  · exact .inl rfl
  · exact buildClose_silent_or_sent c budget nowMs
  exfalso
  simp only [Status.isClosing, Bool.or_eq_true, beq_iff_eq] at closing
  exact closing.elim closes drained

theorem onTimeout_closing (closing : c.status = .closing) (nowMs : Nat) : c.onTimeout nowMs =
    if c.closeSentAtMs + 3 * c.recovery.ptoMs true ≤ nowMs then { c with status := .drained } else c := by
  unfold onTimeout
  split
  next drained =>
    cases drained.symm.trans closing
  · rfl
  next notClosing => exact absurd closing notClosing

/-- As long as nothing has been produced, the time the close counts from has not changed. -/
structure Waits (c : QUICConnection) (s : QUICConnection × Bool) : Prop where
  closing : s.1.status.isClosing = true
  unchanged : s.2 = false → s.1.closeSentAtMs = c.closeSentAtMs ∧ s.1.recovery = c.recovery

theorem Waits.afterCall (waits : Waits c s) (call : ClosingCall) : Waits c (afterCall P s call) := by
  cases call with
  | nextDatagram capacity nowMs =>
    unfold QUICConnection.afterCall
    dsimp only
    rcases nextDatagram_closing (P := P) waits.closing capacity nowMs with silent | ⟨sent, same⟩
    · rw [silent]
      exact ⟨waits.closing, fun quiet => waits.unchanged ((Bool.or_eq_false_iff.mp quiet).1)⟩
    · refine ⟨by rw [same]; exact waits.closing, fun quiet => ?_⟩
      exact absurd sent (of_decide_eq_false (Bool.or_eq_false_iff.mp quiet).2)
  | onTimeout nowMs =>
    show Waits c (s.1.onTimeout nowMs, s.2)
    by_cases closes : s.1.status = .closing
    · rw [onTimeout_closing closes]
      split_ifs
      · exact ⟨rfl, waits.unchanged⟩
      · exact waits
    have drained : s.1.status = .drained := by
      have closing := waits.closing
      simp only [Status.isClosing, Bool.or_eq_true, beq_iff_eq] at closing
      exact closing.resolve_left closes
    have same : s.1.onTimeout nowMs = s.1 := by
      unfold onTimeout
      split
      · rfl
      next closing => exact absurd closing closes
      next notDrained _ => exact absurd drained notDrained
    rw [same]
    exact waits

theorem Waits.run (waits : Waits c s) (calls : List ClosingCall) :
    Waits c (calls.foldl (QUICConnection.afterCall P) s) := by
  induction calls generalizing s with
  | nil => exact waits
  | cons call calls ih => exact ih (waits.afterCall call)

theorem close_open (alive : c.status.isClosing = false) (code : Nat) (application : Bool) (reason : Bytes) :
    (c.close code application reason).status = .closing ∧
      (c.close code application reason).closeSentAtMs = c.closeSentAtMs ∧
      (c.close code application reason).recovery = c.recovery := by
  unfold close
  rw [alive, if_neg Bool.false_ne_true]
  exact ⟨rfl, rfl, rfl⟩

end

/-- The close lingers exactly if the time it counts from is not before the call, or the probe timeout is zero. -/
theorem close_lingers_iff {c : QUICConnection} (alive : c.status.isClosing = false) (code : Nat) (application : Bool)
    (reason : Bytes) (closedAtMs : Nat) : LingersAfter P c (c.close code application reason) closedAtMs ↔
      closedAtMs ≤ c.closeSentAtMs ∨ c.recovery.ptoMs true = 0 := by
  obtain ⟨closing, sentAt, recovery⟩ := close_open alive code application reason
  generalize c.close code application reason = closed at *
  constructor
  · intro lingers
    by_contra early
    push Not at early
    obtain ⟨before, positive⟩ := early
    have latest := lingers [] (.onTimeout (max closedAtMs (c.closeSentAtMs + 3 * c.recovery.ptoMs true)))
      (by simp) (le_max_left _ _) (by rw [List.foldl_nil, closing]; decide)
    have ends : closed.onTimeout (max closedAtMs (c.closeSentAtMs + 3 * c.recovery.ptoMs true)) =
        { closed with status := .drained } := by
      rw [onTimeout_closing closing, sentAt, recovery, if_pos (le_max_right _ _)]
    rw [List.foldl_nil] at latest
    simp only [afterCall, ClosingCall.nowMs, ends, Bool.false_eq_true, false_or, forall_const] at latest
    omega
  · intro counted calls call _ after notDrained drained
    have start : Waits c (closed, false) := ⟨by rw [closing]; rfl, fun _ => ⟨sentAt, recovery⟩⟩
    have waits := start.run (P := P) calls
    generalize calls.foldl (afterCall P) (closed, false) = s at *
    have closes : s.1.status = .closing := by
      have closing := waits.closing
      simp only [Status.isClosing, Bool.or_eq_true, beq_iff_eq] at closing
      exact closing.resolve_right notDrained
    cases call with
    | nextDatagram capacity nowMs =>
      exfalso
      have kept : (s.1.nextDatagram P capacity nowMs).1.status = s.1.status := by
        rcases nextDatagram_closing (P := P) waits.closing capacity nowMs with silent | ⟨-, same⟩
        · rw [silent]
        · exact same
      exact notDrained (kept.symm.trans drained)
    | onTimeout nowMs =>
      cases sent : s.2 with
      | true => exact .inl sent
      | false =>
        obtain ⟨sentAt', recovery'⟩ := waits.unchanged sent
        simp only [afterCall] at drained
        rw [onTimeout_closing closes, sentAt', recovery'] at drained
        have passed : c.closeSentAtMs + 3 * c.recovery.ptoMs true ≤ nowMs := by
          by_contra early
          rw [if_neg early] at drained
          exact notDrained drained
        have later : closedAtMs ≤ nowMs := after
        right
        show closedAtMs + 3 * c.recovery.ptoMs true ≤ nowMs
        omega

/-- A close at the time the connection was made. -/
theorem close_lingers_start : LingersAfter .transparent World.start.conn (World.start.conn.close 0 false []) 0 :=
  (close_lingers_iff .transparent (by decide +kernel) 0 false [] 0).mpr (.inl (Nat.zero_le _))

/-- A connection of five seconds is drained by the first timeout after its close. -/
theorem close_drained_unsent :
    ¬ LingersAfter .transparent World.start.conn (World.start.conn.close 0 false []) 5000 := by
  intro lingers
  have drained := lingers [] (.onTimeout 5000) (by simp) (Nat.le_refl _) (by decide +kernel) (by decide +kernel)
  exact absurd drained (by decide +kernel)

end QUICConnection

end AvianCore.Quic
