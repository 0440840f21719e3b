import AvianCore.Lib.Logged
import AvianCore.Quic.InFlight
import AvianCore.Quic.Run

/-!
Packets in transit. This is the part of a connection that counts its packets: the three packet number
spaces, the recovery state, and which levels have keys. Between calls it changes by the effects below,
none of which uses a packet number; the packets of one call then depart, at most one per level.
-/

namespace AvianCore.Quic
open AvianCore.Lib List PerLevel QUICRecovery

def QUICKeyPair.isKeyed (pair : QUICKeyPair) : Bool := pair.send.isValid || pair.receive.isValid

/-- The events after which a level owes an acknowledgement, or has lost its keys. -/
def Mark.isTransit : Mark → Bool
  | .ackAdded .. => true
  | .discarded .. => true
  | _ => false

namespace QUICPacketSpace

/-- Two spaces that differ at most in what they note about received packets. -/
structure SendsLike (space old : QUICPacketSpace) : Prop where
  next : space.nextPacketNumber = old.nextPacketNumber
  sent : space.sent = old.sent
  head : space.sentHead = old.sentHead
  lossTime : space.lossTimeMs = old.lossTimeMs
  eliciting : space.ackElicitingInFlight = old.ackElicitingInFlight
  largest : space.largestAckedPacket = old.largestAckedPacket

theorem SendsLike.refl (space : QUICPacketSpace) : space.SendsLike space := ⟨rfl, rfl, rfl, rfl, rfl, rfl⟩

theorem SendsLike.trans {first second third : QUICPacketSpace} (one : second.SendsLike first)
    (two : third.SendsLike second) : third.SendsLike first where
  next := two.next.trans one.next
  sent := two.sent.trans one.sent
  head := two.head.trans one.head
  lossTime := two.lossTime.trans one.lossTime
  eliciting := two.eliciting.trans one.eliciting
  largest := two.largest.trans one.largest

def OwesAck (space : QUICPacketSpace) : Prop := space.ackPending = true ∨ space.ackDeadlineMs ≠ 0

def discard (space : QUICPacketSpace) : QUICPacketSpace :=
  { space with
    sent := []
    sentHead := 0
    ackElicitingInFlight := 0
    acks := space.acks.clear
    ackPending := false
    ackElicitingPending := false }

end QUICPacketSpace

structure Transit where
  spaces : PerLevel QUICPacketSpace
  recovery : QUICRecovery
  /-- The levels with keys. -/
  keyed : PerLevel Bool
  log : List Mark

namespace Transit

def put (a : Transit) (level : QUICLevel) (space : QUICPacketSpace) : Transit :=
  { a with spaces := a.spaces.set level space }

def settle (a : Transit) (level : QUICLevel) (after : QUICPacketSpace × QUICRecovery) : Transit :=
  { a with spaces := a.spaces.set level after.1, recovery := after.2 }

def Known (a : Transit) (level : QUICLevel) : Prop :=
  a.keyed.get level = true ∨ ∃ before, Mark.discarded level before ∈ a.log

inductive Effect : Transit → Transit → Prop where
  /-- A packet was processed, and its number noted. -/
  | arrive (a : Transit) (level : QUICLevel) (space : QUICPacketSpace) (before : QUICAckRanges)
      (packetNumber : Nat) (same : space.SendsLike (a.spaces.get level)) (known : a.Known level) :
      Effect a { a.put level space with log := .ackAdded level before packetNumber :: a.log }
  /-- An ACK that was owed has come due, or was written. -/
  | note (a : Transit) (level : QUICLevel) (space : QUICPacketSpace)
      (same : space.SendsLike (a.spaces.get level))
      (owed : space.OwesAck → (a.spaces.get level).OwesAck) : Effect a (a.put level space)
  | acknowledge (a : Transit) (level : QUICLevel) (ranges : List PacketRange)
      (largestAcked ackDelayMs nowMs : Nat) :
      Effect a (a.settle level (QUICLossDetection.onAck (a.spaces.get level) a.recovery ranges
        largestAcked ackDelayMs nowMs).2)
  | expire (a : Transit) (level : QUICLevel) (nowMs : Nat)
      (armed : (a.spaces.get level).lossTimeMs ≠ 0) :
      Effect a (a.settle level (QUICLossDetection.onLossTimer (a.spaces.get level) a.recovery nowMs).2)
  /-- A change of the recovery state that concerns neither flight nor window. -/
  | recover (a : Transit) (recovery : QUICRecovery)
      (bytes : recovery.bytesInFlight = a.recovery.bytesInFlight)
      (window : recovery.congestionWindow = a.recovery.congestionWindow) :
      Effect a { a with recovery := recovery }
  | discard (a : Transit) (level : QUICLevel) :
      Effect a { a.put level (a.spaces.get level).discard with
        recovery := (QUICLossDetection.abandon (a.spaces.get level) a.recovery).2
        keyed := a.keyed.set level false
        log := .discarded level (a.spaces.get level) :: a.log }
  | install (a : Transit) (keyed : PerLevel Bool)
      (grows : ∀ level, a.keyed.get level = true → keyed.get level = true) :
      Effect a { a with keyed := keyed }

variable {a b : Transit}

theorem Effect.grows (effect : Effect a b) : a.log <:+ b.log := by
  cases effect with
  | arrive | discard => exact suffix_cons _ _
  | note | acknowledge | expire | recover | install => exact suffix_rfl

def machine : Logged Transit Mark where
  log := Transit.log
  Step := Effect
  grows := Effect.grows

def send (a : Transit) (level : QUICLevel) (packet : QUICSentPacket) : Transit :=
  { a with
    spaces := a.spaces.modify level fun space => space.record packet
    recovery := a.recovery.onPacketSent packet }

def sendClose (a : Transit) (level : QUICLevel) : Transit :=
  { a with spaces := a.spaces.modify level fun space =>
      { space with nextPacketNumber := space.nextPacketNumber + 1 } }

/-- The packets that one call sends, each with the next number of its level. -/
inductive Departs : List QUICLevel → Transit → Transit → Prop where
  | nothing (a : Transit) : Departs [] a a
  | packet {a b : Transit} {levels : List QUICLevel} (level : QUICLevel) (packet : QUICSentPacket)
      (number : packet.packetNumber = (a.spaces.get level).nextPacketNumber)
      (keyed : a.keyed.get level = true) (once : level ∉ levels)
      (rest : Departs levels (a.send level packet) b) : Departs (level :: levels) a b
  | close (a : Transit) (level : QUICLevel) (keyed : a.keyed.get level = true) :
      Departs [level] a (a.sendClose level)

/-- What one call does: effects, then the packets it sends, then effects again. -/
def Call (a b : Transit) : Prop := ∃ levels m n, machine.Chain a m ∧ Departs levels m n ∧ machine.Chain n b

theorem Call.silent (chain : machine.Chain a b) : Call a b := ⟨[], a, a, Logged.Chain.refl a, .nothing a, chain⟩

variable {levels : List QUICLevel}

theorem Departs.log (departs : Departs levels a b) : b.log = a.log := by
  induction departs with
  | nothing => rfl
  | packet _ _ _ _ _ _ ih => exact ih
  | close => rfl

theorem Call.grows (call : Call a b) : a.log <:+ b.log := by
  obtain ⟨levels, m, n, first, departs, last⟩ := call
  have before : a.log <:+ m.log := Logged.Chain.grows first
  rw [← departs.log] at before
  exact before.trans (Logged.Chain.grows last)

/-- What effects and departures keep, while a condition holds of the log that held of every shorter one,
calls keep. -/
theorem Call.keeps_while {I : Transit → Prop} {cond : List Mark → Prop} (call : Call a b)
    (back : ∀ older newer, older <:+ newer → cond newer → cond older)
    (effect : ∀ s t, Effect s t → cond t.log → I s → I t)
    (packet : ∀ s level packet, s.keyed.get level = true → I s → I (s.send level packet))
    (close : ∀ s level, s.keyed.get level = true → I s → I (s.sendClose level)) (holds : cond b.log) (start : I a) :
    I b := by
  obtain ⟨levels, m, n, first, departs, last⟩ := call
  apply Logged.Chain.keeps_while last back effect holds
  have before : cond m.log := by
    rw [← departs.log]
    exact back _ _ (Logged.Chain.grows last) holds
  have middle := Logged.Chain.keeps_while first back effect before start
  clear first last
  induction departs with
  | nothing => exact middle
  | packet level sent number keyed _ rest ih => exact ih before (packet _ level sent keyed middle)
  | close s level keyed => exact close s level keyed middle

theorem Call.keeps {I : Transit → Prop} (call : Call a b) (effect : ∀ s t, Effect s t → I s → I t)
    (packet : ∀ s level packet, s.keyed.get level = true → I s → I (s.send level packet))
    (close : ∀ s level, s.keyed.get level = true → I s → I (s.sendClose level)) (start : I a) :
    I b := by
  have back : ∀ older newer : List Mark, older <:+ newer → True → True := fun _ _ _ _ => trivial
  exact call.keeps_while back (fun s t step _ => effect s t step) packet close trivial start

end Transit

/-- The counters of a space agree with its packets. -/
structure QUICPacketSpace.Counted (space : QUICPacketSpace) : Prop where
  inside : space.sentHead ≤ space.sent.length
  eliciting : space.ackElicitingInFlight = QUICLossDetection.countEliciting space.unsettled

namespace QUICPacketSpace
open QUICLossDetection
variable {space after : QUICPacketSpace}

theorem SendsLike.unsettled (same : after.SendsLike space) : after.unsettled = space.unsettled := by
  unfold QUICPacketSpace.unsettled
  rw [same.sent, same.head]

theorem SendsLike.counted (same : after.SendsLike space) (counted : space.Counted) : after.Counted where
  inside := by
    rw [same.head, same.sent]
    exact counted.inside
  eliciting := by
    rw [same.eliciting, same.unsettled]
    exact counted.eliciting

theorem discard_unsettled (space : QUICPacketSpace) : space.discard.unsettled = [] := rfl

theorem Counted.settle {acked lost : List QUICSentPacket} (parts : Parts space acked lost after)
    (counted : space.Counted) : after.Counted ∧ inFlightBytes after.unsettled =
      inFlightBytes space.unsettled - inFlightBytes acked - inFlightBytes lost := by
  have eliciting := countEliciting_perm parts.all
  have flying := inFlightBytes_perm parts.all
  rw [countEliciting_append, countEliciting_append] at eliciting
  rw [inFlightBytes_append, inFlightBytes_append] at flying
  refine ⟨⟨parts.inside, ?_⟩, by omega⟩
  rw [parts.counted, counted.eliciting]
  omega

theorem record_spec (space : QUICPacketSpace) (packet : QUICSentPacket) (inside : space.sentHead ≤ space.sent.length) :
    (space.record packet).unsettled = space.unsettled ++ [packet] ∧
      (space.record packet).nextPacketNumber = addWrapping packet.packetNumber 1 ∧
      (space.record packet).sentHead = space.sentHead ∧
      (space.record packet).sent = space.sent ++ [packet] ∧
      (space.record packet).ackElicitingInFlight = space.ackElicitingInFlight + countEliciting [packet] := by
  have behind : (space.sent ++ [packet]).drop space.sentHead = space.unsettled ++ [packet] :=
    drop_append_of_le_length inside
  unfold record countEliciting
  extract_lets recorded
  split_ifs with eliciting <;> exact ⟨behind, rfl, rfl, rfl, by simp [eliciting, recorded]⟩

theorem Counted.record (counted : space.Counted) (packet : QUICSentPacket) :
    (space.record packet).Counted ∧ inFlightBytes (space.record packet).unsettled =
      inFlightBytes space.unsettled + packet.flightSize := by
  obtain ⟨unsettled, -, head, sent, eliciting⟩ := record_spec space packet counted.inside
  refine ⟨⟨?_, ?_⟩, ?_⟩
  · rw [head, sent, length_append]
    exact counted.inside.trans (Nat.le_add_right _ _)
  · rw [eliciting, unsettled, countEliciting_append, counted.eliciting]
  · rw [unsettled, inFlightBytes_append]
    simp [inFlightBytes]

end QUICPacketSpace

namespace Transit
open QUICLossDetection

def flight (spaces : PerLevel QUICPacketSpace) : Int :=
  inFlightBytes spaces.initial.unsettled + inFlightBytes spaces.handshake.unsettled
    + inFlightBytes spaces.application.unsettled

theorem flight_set (spaces : PerLevel QUICPacketSpace) (level : QUICLevel) (space : QUICPacketSpace) :
    flight (spaces.set level space) = flight spaces - inFlightBytes (spaces.get level).unsettled
      + inFlightBytes space.unsettled := by
  cases level <;> simp only [flight, PerLevel.set, PerLevel.get] <;> omega

/-- All counters agree with the packets that are outstanding, and the window is never closed. -/
structure Accounted (a : Transit) : Prop where
  counted : ∀ level, (a.spaces.get level).Counted
  flight : a.recovery.bytesInFlight = flight a.spaces
  window : a.recovery.minimumWindow ≤ a.recovery.congestionWindow

variable {a b : Transit}

theorem Accounted.change (sound : a.Accounted) {level : QUICLevel} {space : QUICPacketSpace}
    (spaces : b.spaces = a.spaces.set level space) (counted : space.Counted)
    (bytes : b.recovery.bytesInFlight = a.recovery.bytesInFlight
      - inFlightBytes (a.spaces.get level).unsettled + inFlightBytes space.unsettled)
    (window : a.recovery.congestionWindow ≤ b.recovery.congestionWindow ∨
      b.recovery.minimumWindow ≤ b.recovery.congestionWindow) : b.Accounted where
  counted other := by
    rw [spaces, get_set]
    split_ifs
    · exact counted
    · exact sound.counted other
  flight := by rw [spaces, flight_set, bytes, sound.flight]
  window := window.elim (sound.window.trans ·) id

theorem Accounted.acknowledge (sound : a.Accounted) (level : QUICLevel) (ranges : List PacketRange)
    (largestAcked ackDelayMs nowMs : Nat) : (a.settle level (onAck (a.spaces.get level) a.recovery
      ranges largestAcked ackDelayMs nowMs).2).Accounted := by
  rcases onAck_cases (a.spaces.get level) a.recovery ranges largestAcked ackDelayMs nowMs with
    ⟨-, unchanged⟩ | ⟨-, settles⟩
  · rw [unchanged]
    apply sound.change rfl (sound.counted level)
    · show a.recovery.bytesInFlight = _
      omega
    · exact .inl le_rfl
  · generalize onAck (a.spaces.get level) a.recovery ranges largestAcked ackDelayMs nowMs = done at settles
    obtain ⟨result, after, recovered⟩ := done
    obtain ⟨counted, flying⟩ : after.Counted ∧ inFlightBytes after.unsettled =
        inFlightBytes (a.spaces.get level).unsettled - inFlightBytes result.acked
          - inFlightBytes result.lost := (sound.counted level).settle settles.parts
    have sampling := sampleRTT_counts a.recovery
      (ackedOf (a.spaces.get level) ranges largestAcked) largestAcked ackDelayMs nowMs
    have known : recovered = _ := settles.recovered
    generalize sample : sampled (a.spaces.get level) a.recovery ranges largestAcked ackDelayMs nowMs = start at known
    have bytes : start.bytesInFlight = a.recovery.bytesInFlight := by
      rw [← sample]
      exact sampling.1
    have window : start.congestionWindow = a.recovery.congestionWindow := by
      rw [← sample]
      exact sampling.2
    obtain ⟨ackedBytes, ackedWindow⟩ := onPacketsAcked_counts start result.acked
    obtain ⟨lostBytes, lostWindow⟩ := onPacketsLost_counts (start.onPacketsAcked result.acked) result.lost nowMs
    rw [← known] at lostBytes lostWindow
    apply sound.change rfl counted
    · show recovered.bytesInFlight = a.recovery.bytesInFlight - _ + inFlightBytes after.unsettled
      rw [lostBytes, ackedBytes, bytes, flying]
      omega
    · apply Or.inr
      apply lostWindow
      have enough : a.recovery.minimumWindow ≤ start.congestionWindow := window ▸ sound.window
      exact enough.trans (ackedWindow (a.recovery.minimumWindow_nonneg.trans enough))

theorem Accounted.expire (sound : a.Accounted) (level : QUICLevel) (nowMs : Nat) :
    (a.settle level (onLossTimer (a.spaces.get level) a.recovery nowMs).2).Accounted := by
  obtain ⟨parts, recovered⟩ := onLossTimer_parts (a.spaces.get level) a.recovery nowMs (sound.counted level).inside
  generalize onLossTimer (a.spaces.get level) a.recovery nowMs = done at parts recovered
  obtain ⟨lost, after, recovery⟩ := done
  obtain ⟨counted, flying⟩ : after.Counted ∧ inFlightBytes after.unsettled =
      inFlightBytes (a.spaces.get level).unsettled - inFlightBytes [] - inFlightBytes lost :=
    (sound.counted level).settle parts
  obtain ⟨bytes, window⟩ := onPacketsLost_counts a.recovery lost nowMs
  have known : recovery = a.recovery.onPacketsLost lost nowMs := recovered
  rw [← known] at bytes window
  apply sound.change rfl counted
  · show recovery.bytesInFlight = a.recovery.bytesInFlight - _ + inFlightBytes after.unsettled
    rw [bytes, flying, inFlightBytes_nil]
    omega
  · exact .inr (window sound.window)

theorem Accounted.effect (effect : Effect a b) (sound : a.Accounted) : b.Accounted := by
  have unmoved : ∀ {c : Transit} {level : QUICLevel} {space : QUICPacketSpace},
      space.SendsLike (a.spaces.get level) → c.spaces = a.spaces.set level space →
        c.recovery = a.recovery → c.Accounted := by
    intro c level space same spaces recovery
    apply sound.change spaces (same.counted (sound.counted level))
    · rw [recovery, same.unsettled]
      omega
    · exact .inl (recovery ▸ le_rfl)
  cases effect with
  | arrive level space before packetNumber same known | note level space same owed => exact unmoved same rfl rfl
  | acknowledge level ranges largestAcked ackDelayMs nowMs => exact sound.acknowledge _ _ _ _ _
  | expire level nowMs armed => exact sound.expire level nowMs
  | recover recovery bytes window => exact ⟨sound.counted, bytes.trans sound.flight, window ▸ sound.window⟩
  | discard level =>
    apply sound.change rfl ⟨le_rfl, rfl⟩
    · rw [QUICPacketSpace.discard_unsettled, inFlightBytes_nil, add_zero]
      exact foldl_sub_size _ _
    · exact .inl le_rfl
  | install keyed grows => exact ⟨sound.counted, sound.flight, sound.window⟩

theorem Accounted.send (sound : a.Accounted) (level : QUICLevel) (packet : QUICSentPacket) :
    (a.send level packet).Accounted := by
  obtain ⟨counted, flying⟩ := (sound.counted level).record packet
  obtain ⟨bytes, window⟩ := onPacketSent_counts a.recovery packet
  apply sound.change rfl counted
  · show (a.recovery.onPacketSent packet).bytesInFlight = _
    rw [bytes, flying]
    omega
  · exact .inl window.ge

theorem Accounted.sendClose (sound : a.Accounted) (level : QUICLevel) : (a.sendClose level).Accounted := by
  have counted : QUICPacketSpace.Counted { a.spaces.get level with
      nextPacketNumber := (a.spaces.get level).nextPacketNumber + 1 } :=
    ⟨(sound.counted level).inside, (sound.counted level).eliciting⟩
  apply sound.change rfl counted
  · show a.recovery.bytesInFlight = a.recovery.bytesInFlight -
      inFlightBytes (a.spaces.get level).unsettled + inFlightBytes (a.spaces.get level).unsettled
    omega
  · exact .inl le_rfl

theorem Accounted.call (call : Call a b) (sound : a.Accounted) : b.Accounted :=
  call.keeps (fun _ _ => Accounted.effect) (fun _ level packet _ sound => sound.send level packet)
    (fun _ level _ sound => sound.sendClose level) sound

end Transit

/-- Outstanding packets have increasing numbers, all of them used. -/
structure QUICPacketSpace.Numbered (space : QUICPacketSpace) : Prop where
  increasing : space.Increasing
  below : ∀ packet ∈ space.unsettled, packet.packetNumber < space.nextPacketNumber

namespace QUICPacketSpace
variable {space after : QUICPacketSpace}

theorem Numbered.shrink (numbered : space.Numbered) (order : after.unsettled.Sublist space.unsettled)
    (next : space.nextPacketNumber ≤ after.nextPacketNumber) : after.Numbered where
  increasing := numbered.increasing.sublist order
  below packet member := (numbered.below packet (order.subset member)).trans_le next

/-- Two spaces of which the second has no packet and no number that the first has not. -/
def Shrinks (space after : QUICPacketSpace) : Prop :=
  after.unsettled.Sublist space.unsettled ∧ after.nextPacketNumber = space.nextPacketNumber

variable (space : QUICPacketSpace)

theorem Shrinks.refl : Shrinks space space := ⟨List.Sublist.refl _, rfl⟩

theorem Shrinks.trans {first second third : QUICPacketSpace} (one : Shrinks first second)
    (two : Shrinks second third) : Shrinks first third :=
  ⟨two.1.trans one.1, two.2.trans one.2⟩

theorem SendsLike.shrinks (same : after.SendsLike space) : Shrinks space after :=
  ⟨same.unsettled ▸ List.Sublist.refl _, same.next⟩

/-- What departure does to a space: a packet with its next number, which may be recorded. -/
structure Numbers (space after : QUICPacketSpace) : Prop where
  next : after.nextPacketNumber ≤ space.nextPacketNumber + 1
  grows : space.nextPacketNumber + 1 < 2 ^ 64 → after.nextPacketNumber = space.nextPacketNumber + 1
  numbered : space.nextPacketNumber + 1 < 2 ^ 64 → space.Numbered → after.Numbered

theorem record_numbers {packet : QUICSentPacket} (inside : space.sentHead ≤ space.sent.length)
    (number : packet.packetNumber = space.nextPacketNumber) : Numbers space (space.record packet) := by
  obtain ⟨unsettled, next, -, -, -⟩ := record_spec space packet inside
  rw [number] at next
  have grows : space.nextPacketNumber + 1 < 2 ^ 64 →
      (space.record packet).nextPacketNumber = space.nextPacketNumber + 1 := by
    intro small
    rw [next]
    exact Nat.mod_eq_of_lt small
  refine ⟨?_, grows, fun small numbered => ⟨?_, ?_⟩⟩
  · rw [next]
    exact Nat.mod_le _ _
  · unfold Increasing
    rw [unsettled, pairwise_append]
    refine ⟨numbered.increasing, pairwise_singleton _ _, fun older member newer last => ?_⟩
    rw [mem_singleton.mp last, number]
    exact numbered.below older member
  · intro sent member
    rw [grows small]
    rw [unsettled, mem_append, mem_singleton] at member
    rcases member with old | rfl
    · have below := numbered.below sent old
      omega
    · omega

theorem close_numbers : Numbers space { space with nextPacketNumber := space.nextPacketNumber + 1 } := by
  refine ⟨le_rfl, fun _ => rfl, fun _ numbered => ?_⟩
  exact numbered.shrink (List.Sublist.refl _) (Nat.le_succ _)

end QUICPacketSpace

namespace Transit
open QUICLossDetection QUICPacketSpace
variable {a b : Transit}

theorem Effect.shrinks (effect : Effect a b) (sound : a.Accounted) (level : QUICLevel) :
    Shrinks (a.spaces.get level) (b.spaces.get level) := by
  have changed : ∀ {other : QUICLevel} {space : QUICPacketSpace}, Shrinks (a.spaces.get other) space →
        Shrinks (a.spaces.get level) ((a.spaces.set other space).get level) := by
    intro other space shrinks
    rw [get_set]
    split_ifs with here
    · exact here ▸ shrinks
    · exact Shrinks.refl _
  cases effect with
  | arrive other space before packetNumber same known | note other space same owed => exact changed same.shrinks
  | acknowledge other ranges largestAcked ackDelayMs nowMs =>
    apply changed
    rcases onAck_cases (a.spaces.get other) a.recovery ranges largestAcked ackDelayMs nowMs with
      ⟨-, unchanged⟩ | ⟨-, settles⟩
    · rw [unchanged]
      exact Shrinks.refl _
    · exact ⟨settles.parts.order, settles.parts.next⟩
  | expire other nowMs armed =>
    have parts := (onLossTimer_parts (a.spaces.get other) a.recovery nowMs (sound.counted other).inside).1
    exact changed ⟨parts.order, parts.next⟩
  | recover recovery bytes window => exact Shrinks.refl _
  | discard other => exact changed ⟨nil_sublist _, rfl⟩
  | install keyed grows => exact Shrinks.refl _

theorem chain_shrinks (chain : machine.Chain a b) (sound : a.Accounted) :
    b.Accounted ∧ ∀ level, Shrinks (a.spaces.get level) (b.spaces.get level) := by
  apply Logged.Chain.keeps_always chain (I := fun t => t.Accounted ∧ ∀ level,
    Shrinks (a.spaces.get level) (t.spaces.get level))
  · intro s t effect holds
    exact ⟨holds.1.effect effect, fun level =>
      (holds.2 level).trans (effect.shrinks holds.1 level)⟩
  · exact ⟨sound, fun level => Shrinks.refl _⟩

theorem Departs.numbers (departs : Departs levels a b) (sound : a.Accounted) :
    b.Accounted ∧ ∀ level, (level ∉ levels → b.spaces.get level = a.spaces.get level) ∧
      (level ∈ levels → Numbers (a.spaces.get level) (b.spaces.get level)) := by
  induction departs with
  | nothing a => exact ⟨sound, fun level => ⟨fun _ => rfl, fun member => by cases member⟩⟩
  | @packet a b levels level packet number keyed once rest ih =>
    obtain ⟨after, each⟩ := ih (sound.send level packet)
    refine ⟨after, fun other => ⟨fun absent => ?_, fun member => ?_⟩⟩
    · rw [mem_cons, not_or] at absent
      rw [(each other).1 absent.2]
      exact get_set_ne _ absent.1 _
    · by_cases here : other = level
      · subst here
        rw [(each other).1 once]
        show Numbers _ ((a.spaces.set other _).get other)
        rw [get_set_self]
        exact record_numbers _ (sound.counted other).inside number
      have later := (each other).2 ((mem_cons.mp member).resolve_left here)
      have same : (a.send level packet).spaces.get other = a.spaces.get other := get_set_ne _ here _
      rw [same] at later
      exact later
  | close a level keyed =>
    refine ⟨sound.sendClose level, fun other => ⟨fun absent => ?_, fun member => ?_⟩⟩
    · exact get_set_ne _ (fun here => absent (mem_singleton.mpr here)) _
    · rw [mem_singleton.mp member]
      show Numbers _ ((a.spaces.set level _).get level)
      rw [get_set_self]
      exact close_numbers _

theorem departed_next {m n : Transit} (sound : a.Accounted)
    (first : machine.Chain a m) (departs : Departs levels m n) (last : machine.Chain n b)
    {level : QUICLevel} (small : (a.spaces.get level).nextPacketNumber + 1 < 2 ^ 64) :
    (b.spaces.get level).nextPacketNumber = (a.spaces.get level).nextPacketNumber +
      if level ∈ levels then 1 else 0 := by
  obtain ⟨middle, before⟩ := chain_shrinks first sound
  obtain ⟨sent, each⟩ := departs.numbers middle
  have after := ((chain_shrinks last sent).2 level).2
  have start := (before level).2
  split_ifs with member
  · rw [after, ((each level).2 member).grows (by omega), start]
  · rw [after, (each level).1 member, start, Nat.add_zero]

/-- Over one call the next number of a level grows by at most one, and while it does not wrap around
the packets stay in order. -/
theorem Call.numbers (call : Call a b) (sound : a.Accounted) (level : QUICLevel) :
    (b.spaces.get level).nextPacketNumber ≤ (a.spaces.get level).nextPacketNumber + 1 ∧
      ((a.spaces.get level).nextPacketNumber + 1 < 2 ^ 64 → (a.spaces.get level).Numbered →
        (b.spaces.get level).Numbered) := by
  obtain ⟨levels, m, n, first, departs, last⟩ := call
  obtain ⟨middle, before⟩ := chain_shrinks first sound
  obtain ⟨sent, each⟩ := departs.numbers middle
  obtain ⟨-, after⟩ := chain_shrinks last sent
  obtain ⟨beforeOrder, beforeNext⟩ := before level
  obtain ⟨afterOrder, afterNext⟩ := after level
  by_cases member : level ∈ levels
  · have numbers := (each level).2 member
    refine ⟨by have next := numbers.next; omega, fun small numbered => ?_⟩
    have inOrder := numbers.numbered (by omega) (numbered.shrink beforeOrder beforeNext.ge)
    exact inOrder.shrink afterOrder afterNext.ge
  have same := (each level).1 member
  rw [same] at afterOrder afterNext
  refine ⟨by omega, fun small numbered => ?_⟩
  have inOrder := numbered.shrink beforeOrder beforeNext.ge
  exact inOrder.shrink afterOrder afterNext.ge

end Transit

end AvianCore.Quic
