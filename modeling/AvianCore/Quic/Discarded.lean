import AvianCore.Quic.Emission

/-!
Spaces whose keys are gone. Such a space should owe nothing, since it cannot send; that is so in every
run in which no timer was armed when the keys were dropped and no packet of the level was still being
processed.
-/

namespace AvianCore.Quic
open AvianCore.Lib List

def Mark.disarmed : Mark → Bool
  | .discarded _ before => before.ackDeadlineMs == 0 && before.lossTimeMs == 0
  | _ => true

/-- A packet number was noted at a level whose keys had been dropped. -/
def Mark.revives (newer older : Mark) : Bool :=
  match newer, older with
  | .ackAdded level _ _, .discarded other _ => level == other
  | _, _ => false

/-- A history in which the keys of a level were always dropped for good. -/
def Forgets (history : List Mark) : Prop :=
  (∀ mark ∈ history, mark.disarmed = true) ∧ history.Pairwise fun newer older => newer.revives older = false

instance (history : List Mark) : Decidable (Forgets history) := inferInstanceAs (Decidable (_ ∧ _))

theorem Forgets.sublist {older newer : List Mark} (shorter : older.Sublist newer)
    (forgets : Forgets newer) : Forgets older :=
  ⟨fun mark member => forgets.1 mark (shorter.subset member), forgets.2.sublist shorter⟩

/-- Nothing is owed and nothing is awaited. -/
structure QUICPacketSpace.Idle (space : QUICPacketSpace) : Prop where
  ackPending : space.ackPending = false
  ackDeadline : space.ackDeadlineMs = 0
  lossTime : space.lossTimeMs = 0
  outstanding : space.unsettled = []

namespace QUICPacketSpace
variable {space after : QUICPacketSpace}

theorem Idle.owesNothing (idle : space.Idle) : ¬space.OwesAck := by
  simp [OwesAck, idle.ackPending, idle.ackDeadline]

theorem Idle.note (idle : space.Idle) (same : after.SendsLike space)
    (owed : after.OwesAck → space.OwesAck) : after.Idle := by
  have nothing : ¬after.OwesAck := fun owes => idle.owesNothing (owed owes)
  simp only [OwesAck, not_or, not_not, Bool.not_eq_true] at nothing
  exact ⟨nothing.1, nothing.2, same.lossTime.trans idle.lossTime, same.unsettled.trans idle.outstanding⟩

theorem Idle.onAck (idle : space.Idle) (recovery : QUICRecovery) (ranges : List PacketRange)
    (largestAcked ackDelayMs nowMs : Nat) :
    (QUICLossDetection.onAck space recovery ranges largestAcked ackDelayMs nowMs).2.1 = space := by
  have none : space.outstanding = 0 := by
    have short := drop_eq_nil_iff.mp idle.outstanding
    unfold QUICPacketSpace.outstanding
    omega
  unfold QUICLossDetection.onAck
  rw [if_pos none]

end QUICPacketSpace

namespace Transit
variable {a b : Transit}

def Quiet (a : Transit) : Prop := ∀ level, a.keyed.get level = false → (a.spaces.get level).Idle

theorem Quiet.put (quiet : a.Quiet) {level : QUICLevel} {space : QUICPacketSpace}
    (keyed : b.keyed = a.keyed) (spaces : b.spaces = a.spaces.set level space)
    (idle : a.keyed.get level = false → (a.spaces.get level).Idle → space.Idle) : b.Quiet := by
  intro other keyless
  rw [keyed] at keyless
  rw [spaces, PerLevel.get_set]
  split_ifs with here
  · subst here
    exact idle keyless (quiet other keyless)
  · exact quiet other keyless

theorem Quiet.effect (effect : Effect a b) (forgets : Forgets b.log) (quiet : a.Quiet) : b.Quiet := by
  cases effect with
  | arrive level space before packetNumber same known =>
    refine quiet.put rfl rfl ?_
    intro keyless _
    -- the keys were dropped while the packet was processed
    obtain ⟨dropped, logged⟩ := known.resolve_left (by simp [keyless])
    have never := (pairwise_cons.mp forgets.2).1 _ logged
    simp [Mark.revives] at never
  | note level space same owed => exact quiet.put rfl rfl fun _ idle => idle.note same owed
  | acknowledge level ranges largestAcked ackDelayMs nowMs =>
    refine quiet.put rfl rfl ?_
    intro _ idle
    rw [idle.onAck]
    exact idle
  | expire level nowMs armed =>
    refine quiet.put rfl rfl ?_
    intro _ idle
    exact absurd idle.lossTime armed
  | recover recovery bytes window => exact quiet
  | discard level =>
    have disarmed := forgets.1 _ mem_cons_self
    simp only [Mark.disarmed, Bool.and_eq_true, beq_iff_eq] at disarmed
    intro other keyless
    show ((a.spaces.set level _).get other).Idle
    rw [PerLevel.get_set]
    split_ifs with here
    · exact ⟨rfl, disarmed.1, disarmed.2, rfl⟩
    apply quiet other
    rw [← PerLevel.get_set_ne a.keyed here false]
    exact keyless
  | install keyed grows =>
    intro level keyless
    apply quiet level
    by_contra had
    have kept := grows level (by simpa using had)
    cases kept.symm.trans keyless

theorem Quiet.call (call : Call a b) (forgets : Forgets b.log) (quiet : a.Quiet) : b.Quiet := by
  apply call.keeps_while (fun _ _ suffix => Forgets.sublist suffix.sublist)
    (fun _ _ effect forgets quiet => quiet.effect effect forgets) _ _ forgets quiet
  · intro s level packet keyed quiet
    refine quiet.put rfl rfl ?_
    intro keyless _
    cases keyed.symm.trans keyless
  · intro s level keyed quiet
    refine quiet.put rfl rfl ?_
    intro keyless _
    cases keyed.symm.trans keyless

end Transit

namespace QUICConnection

def isKeyed (c : QUICConnection) (level : QUICLevel) : Bool := (c.keys.get level).isKeyed

def ownSpace (c : QUICConnection) (level : QUICLevel) : QUICPacketSpace :=
  if c.isKeyed level then c.spaces.get level else {}

def withoutKeyless (c : QUICConnection) : QUICConnection :=
  { c with spaces := ⟨c.ownSpace .initial, c.ownSpace .handshake, c.ownSpace .application⟩ }

theorem withoutKeyless_get (c : QUICConnection) (level : QUICLevel) :
    c.withoutKeyless.spaces.get level = c.ownSpace level := by
  cases level <;> rfl

/-- The packet numbers and acknowledgements of a level without keys are all blank. -/
structure KeylessIdle (c : QUICConnection) : Prop where
  idle : ∀ level, c.isKeyed level = false → (c.spaces.get level).Idle
  eliciting : ∀ level, c.isKeyed level = false → (c.spaces.get level).ackElicitingInFlight = 0

variable {c : QUICConnection}

theorem field_withoutKeyless {α : Type} (field : QUICPacketSpace → α)
    (blank : ∀ level, c.isKeyed level = false → field (c.spaces.get level) = field {})
    (level : QUICLevel) : field (c.withoutKeyless.spaces.get level) = field (c.spaces.get level) := by
  rw [withoutKeyless_get]
  unfold ownSpace
  split_ifs with keyed
  · rfl
  · exact (blank level (by simpa using keyed)).symm

theorem KeylessIdle.hasOutput (clean : c.KeylessIdle) : c.withoutKeyless.hasOutput = c.hasOutput := by
  have ackPending := field_withoutKeyless QUICPacketSpace.ackPending
    fun level keyless => (clean.idle level keyless).ackPending
  unfold QUICConnection.hasOutput
  simp only [ackPending]
  rfl

theorem KeylessIdle.probeDeadline (clean : c.KeylessIdle) : c.withoutKeyless.probeDeadline = c.probeDeadline := by
  have eliciting := field_withoutKeyless QUICPacketSpace.ackElicitingInFlight clean.eliciting
  have time : ∀ level, 0 < (c.spaces.get level).ackElicitingInFlight →
      (c.withoutKeyless.spaces.get level).timeOfLastAckElicitingMs = (c.spaces.get level).timeOfLastAckElicitingMs := by
    intro level positive
    have keyed : c.isKeyed level = true := by
      by_contra keyless
      have none := clean.eliciting level (by simpa using keyless)
      omega
    rw [withoutKeyless_get, ownSpace, if_pos keyed]
  unfold QUICConnection.probeDeadline
  simp only [eliciting]
  have last : (levels.filter fun level => 0 < (c.spaces.get level).ackElicitingInFlight).foldl
      (fun last level => max last (c.withoutKeyless.spaces.get level).timeOfLastAckElicitingMs) 0 =
      (levels.filter fun level => 0 < (c.spaces.get level).ackElicitingInFlight).foldl
        (fun last level => max last (c.spaces.get level).timeOfLastAckElicitingMs) 0 := by
    apply foldl_ext
    intro last level member
    rw [time level (by simpa using (mem_filter.mp member).2)]
  rw [last]
  rfl

theorem KeylessIdle.nextTimeout (clean : c.KeylessIdle) : c.withoutKeyless.nextTimeout = c.nextTimeout := by
  have deadline := field_withoutKeyless QUICPacketSpace.ackDeadlineMs
    fun level keyless => (clean.idle level keyless).ackDeadline
  have lossTime := field_withoutKeyless QUICPacketSpace.lossTimeMs
    fun level keyless => (clean.idle level keyless).lossTime
  unfold QUICConnection.nextTimeout
  simp only [deadline, lossTime, clean.probeDeadline]
  rfl

end QUICConnection

namespace World
variable (P : Primitives)

theorem run_log (w : World) (ops : List Op) : w.conn.transit.log <:+ (w.run P ops).conn.transit.log := by
  induction ops generalizing w with
  | nil => exact suffix_rfl
  | cons op rest ih => exact (step_call P w op).grows.trans (ih (w.step P op))

theorem run_quiet (w : World) (ops : List Op) (forgets : Forgets (w.run P ops).conn.transit.log)
    (quiet : w.conn.transit.Quiet) : (w.run P ops).conn.transit.Quiet := by
  induction ops generalizing w with
  | nil => exact quiet
  | cons op rest ih =>
    have before : Forgets (w.step P op).conn.transit.log := forgets.sublist (run_log P (w.step P op) rest).sublist
    exact ih (w.step P op) forgets (quiet.call (step_call P w op) before)

/-- In every run that forgets keys for good, a space whose keys are gone owes nothing and awaits nothing,
so that neither output nor timers are driven by a space that cannot send. -/
theorem keyless_idle (start : World) (fresh : Fresh P start) (ops : List Op)
    (forgets : Forgets (start.run P ops).conn.history) :
    let c := (start.run P ops).conn
    (∀ level, c.isKeyed level = false →
        (c.spaces.get level).ackPending = false ∧ (c.spaces.get level).ackDeadlineMs = 0 ∧
        (c.spaces.get level).lossTimeMs = 0 ∧ (c.spaces.get level).unsettled = []) ∧
      c.hasOutput = c.withoutKeyless.hasOutput ∧ c.nextTimeout = c.withoutKeyless.nextTimeout := by
  intro c
  have blank := fresh.blank P
  have sound : c.transit.Accounted := run_accounted P start ops blank.accounted
  have initially : start.conn.transit.Quiet := by
    intro level _
    rw [blank.get level]
    exact ⟨rfl, rfl, rfl, rfl⟩
  have quiet : c.transit.Quiet := run_quiet P start ops (forgets.sublist List.filter_sublist) initially
  have idle : ∀ level, c.isKeyed level = false → (c.spaces.get level).Idle := by
    intro level keyless
    exact quiet level ((QUICConnection.transit_keyed c level).trans keyless)
  have clean : c.KeylessIdle := by
    refine ⟨idle, fun level keyless => ?_⟩
    have eliciting := (sound.counted level).eliciting
    rw [show c.transit.spaces.get level = c.spaces.get level from rfl, (idle level keyless).outstanding] at eliciting
    exact eliciting
  refine ⟨fun level keyless => ?_, clean.hasOutput.symm, clean.nextTimeout.symm⟩
  have owes := idle level keyless
  exact ⟨owes.ackPending, owes.ackDeadline, owes.lossTime, owes.outstanding⟩

/-- The client's first Handshake packet, once the Initial ACK is out: the Initial keys go, and nothing
of that level is left. -/
theorem keyless_idle_initial :
    let c := (start.run .transparent [Client.hello, .nextDatagram 1200 1,
      .receive (Client.handshakePacket 0 [1, 0, 0]) 2]).conn
    c.isKeyed .initial = false ∧ (c.spaces.get .initial).ackPending = false ∧
      (c.spaces.get .initial).unsettled = [] ∧ c.hasOutput = c.withoutKeyless.hasOutput := by
  have idle := keyless_idle .transparent start start_fresh [Client.hello, .nextDatagram 1200 1,
    .receive (Client.handshakePacket 0 [1, 0, 0]) 2] (by decide +kernel)
  obtain ⟨levels, output, -⟩ := idle
  have keyless : (start.run .transparent [Client.hello, .nextDatagram 1200 1,
      .receive (Client.handshakePacket 0 [1, 0, 0]) 2]).conn.isKeyed .initial = false := by
    decide +kernel
  have initial := levels .initial keyless
  exact ⟨keyless, initial.1, initial.2.2.2, output⟩

/-- The client's two flights: the Initial space keeps the deadline of an ACK it can no longer send, and
the Handshake space owes one for the packet in which its keys were dropped. Everything that can be sent
is sent, and the connection still says that it has output. -/
theorem keyless_owes :
    let c := (start.run .transparent [Client.hello, Client.finished, .nextDatagram 1200 3,
      .nextDatagram 1200 3]).conn
    c.isKeyed .initial = false ∧ c.spaces.initial.ackDeadlineMs = 2 ∧
      c.isKeyed .handshake = false ∧ c.spaces.handshake.ackPending = true ∧
      c.hasOutput = true ∧ c.withoutKeyless.hasOutput = false ∧
      c.nextTimeout = some 2 ∧ (c.nextDatagram .transparent 1200 3).2.count = 0 := by
  decide +kernel

end World

end AvianCore.Quic
