import AvianCore.Quic.AckRanges
import AvianCore.Quic.Refine.Run

/-!
The duplicate check over a run: how often the frames of one packet number are processed.
-/

namespace AvianCore.Quic
open AvianCore.Lib PerLevel List
open Client (shortPacket)

namespace Mark

def isFrames (level : QUICLevel) (packetNumber : Nat) : Mark → Bool
  | .frames space number => decide (space = level ∧ number = packetNumber)
  | _ => false

/-- An event that leaves the packet number in the ack ranges: no acknowledged ACK of ours covered
it, the ranges had room when a packet number was added, and its own packet was processed to the
end. -/
def Remembers (level : QUICLevel) (packetNumber : Nat) : Mark → Prop
  | .acked space packet =>
    space = level → ∀ covered ∈ packet.largestAcked, covered < packetNumber
  | .ackAdded space before added =>
    space = level → before.contains packetNumber = true ∨ packetNumber = added → before.Retains packetNumber
  | .cutShort space number => ¬(space = level ∧ number = packetNumber)
  | _ => True

instance (level : QUICLevel) (packetNumber : Nat) : DecidablePred (Remembers level packetNumber) :=
  fun mark => by cases mark <;> dsimp only [Remembers] <;> infer_instance

end Mark

namespace Ledger

/-- The keys of a level come once, and what the ack ranges hold is well formed. -/
structure Sane (a : Ledger) : Prop where
  initial : .initial ∉ a.pending
  answered : a.complete = true → a.awaiting = false ∧ a.pending = []
  proper : ∀ level, (a.acks.get level).Proper

theorem Initial.sane {a : Ledger} (initial : a.Initial) : a.Sane where
  initial := by simp [initial.pending]
  answered := by simp [initial.complete]
  proper := fun level => .of_empty (initial.acks level)

theorem Sane.setAcks {a : Ledger} (sane : a.Sane) (level : QUICLevel) {acks : QUICAckRanges}
    (proper : acks.Proper) : ∀ other, ((a.acks.set level acks).get other).Proper := by
  intro other
  rw [get_set]
  split_ifs
  · exact proper
  · exact sane.proper other

variable {a b : Ledger}

theorem Effect.sane (effect : Effect a b) (sane : a.Sane) : b.Sane := by
  cases effect
  case completed first answered installed => exact ⟨sane.initial, fun _ => ⟨answered, installed⟩, sane.proper⟩
  case discard level space past => exact ⟨sane.initial, sane.answered, sane.setAcks level (.of_empty rfl)⟩
  case install receivable known => exact ⟨not_mem_nil, fun done => ⟨(sane.answered done).1, rfl⟩, sane.proper⟩
  case handshake awaiting pending offered once answered levels bounded =>
    refine ⟨fun member => ?_, fun done => ?_, sane.proper⟩
    · exact (levels _ member).elim sane.initial fun differs => differs rfl
    · obtain ⟨before, none⟩ := sane.answered done
      refine ⟨?_, (answered before).trans none⟩
      cases awaiting with
      | false => rfl
      | true => exact (once rfl).symm.trans before
  case settle level acked lost rest ackedSent lostSent restSent =>
    exact ⟨sane.initial, sane.answered,
      sane.setAcks level (QUICLossDetection.trimAcks_proper acked (sane.proper level))⟩
  case data | resetReceived | overcharge =>
    unfold charge
    split_ifs <;> exact ⟨sane.initial, sane.answered, sane.proper⟩
  all_goals exact ⟨sane.initial, sane.answered, sane.proper⟩

theorem Begins.sane {key : QUICLevel × Nat} (begins : Begins key a b) (sane : a.Sane) : b.Sane := by
  cases begins
  exact ⟨sane.initial, sane.answered, sane.proper⟩

theorem Ends.sane {key : QUICLevel × Nat} (ends : Ends key a b) (sane : a.Sane) : b.Sane := by
  obtain ⟨level, packetNumber⟩ := key
  cases ends with
  | cutShort => exact ⟨sane.initial, sane.answered, sane.proper⟩
  | added => exact ⟨sane.initial, sane.answered, sane.setAcks level ((sane.proper level).add packetNumber)⟩

def Gone (a : Ledger) (level : QUICLevel) : Prop :=
  a.receivable.get level = false ∧ (level = .initial ∨ (level = .handshake ∧ a.complete = true))

theorem Effect.gone (effect : Effect a b) (sane : a.Sane) {level : QUICLevel} (gone : a.Gone level) : b.Gone level := by
  obtain ⟨closed, past⟩ := gone
  cases effect
  case completed => exact ⟨closed, past.imp_right fun done => ⟨done.1, rfl⟩⟩
  case discard other _ _ =>
    refine ⟨?_, past⟩
    simp only [get_set]
    split_ifs
    · rfl
    · exact closed
  case install receivable known =>
    refine ⟨?_, past⟩
    by_contra valid
    rcases known level (by simpa using valid) with before | pending
    · exact absurd before (by simp [closed])
    rcases past with first | ⟨-, done⟩
    · exact sane.initial (first ▸ pending)
    · simp [(sane.answered done).2] at pending
  case data | resetReceived | overcharge =>
    unfold charge
    split_ifs <;> exact ⟨closed, past⟩
  all_goals exact ⟨closed, past⟩

section
variable (level : QUICLevel) (packetNumber : Nat)

def handovers (a : Ledger) : Nat := a.history.countP (Mark.isFrames level packetNumber)

variable {a b : Ledger}

theorem Effect.handovers (effect : Effect a b) : b.handovers level packetNumber = a.handovers level packetNumber := by
  cases effect
  case data | resetReceived | overcharge =>
    unfold charge
    split_ifs <;> simp [Ledger.handovers, mark, Mark.isFrames]
  case turn reset _ _ _ _ => cases reset <;> simp [Ledger.handovers, Mark.isFrames]
  case settle =>
    simp only [Ledger.handovers, countP_append, countP_map]
    simp [Function.comp_def, Mark.isFrames]
  all_goals simp [Ledger.handovers, mark, Mark.isFrames]

def Recognised (a : Ledger) : Prop := (a.acks.get level).contains packetNumber = true ∨ a.Gone level

variable {level packetNumber}

theorem Effect.recognised (effect : Effect a b) (sane : a.Sane)
    (clean : effects.Clean (Mark.Remembers level packetNumber) b) (recognised : a.Recognised level packetNumber) :
    b.Recognised level packetNumber := by
  rcases recognised with known | gone
  · cases effect
    case discard other space past =>
      by_cases same : level = other
      · subst same
        right
        exact ⟨by simp, past⟩
      · left
        simpa only [get_set_ne _ same] using known
    case settle other acked lost rest ackedSent lostSent restSent =>
      left
      by_cases same : level = other
      · subst same
        rw [get_set_self]
        apply QUICLossDetection.contains_trimAcks acked (sane.proper level) known
        intro packet member
        have settled : Mark.acked level packet ∈ acked.map (Mark.acked level) := mem_map_of_mem member
        exact clean _ (mem_append_left _ (mem_append_left _ settled)) rfl
      · simpa only [get_set_ne _ same] using known
    case data | resetReceived | overcharge =>
      left
      unfold charge
      split_ifs <;> exact known
    all_goals exact .inl known
  · exact .inr (effect.gone sane gone)

/-- The frames were processed at most once, and if they were, a copy is recognised. -/
structure Once (level : QUICLevel) (packetNumber : Nat) (a : Ledger) : Prop extends Sane a where
  once : a.handovers level packetNumber = 0 ∨
    a.handovers level packetNumber = 1 ∧ a.Recognised level packetNumber

theorem Effect.once (effect : Effect a b) (clean : effects.Clean (Mark.Remembers level packetNumber) b)
    (once : a.Once level packetNumber) :
    b.Once level packetNumber := by
  refine ⟨effect.sane once.toSane, ?_⟩
  rw [effect.handovers level packetNumber]
  exact once.once.imp_right fun seen => ⟨seen.1, effect.recognised once.toSane clean seen.2⟩

variable {key : QUICLevel × Nat}

theorem Begins.handovers (begins : Begins key a b) : b.handovers level packetNumber =
    a.handovers level packetNumber + if key = (level, packetNumber) then 1 else 0 := by
  cases begins
  simp [Ledger.handovers, mark, countP_cons, Mark.isFrames]

theorem Ends.handovers (ends : Ends key a b) : b.handovers level packetNumber = a.handovers level packetNumber := by
  cases ends <;> simp [Ledger.handovers, mark, Mark.isFrames]

theorem Ends.recognised (ends : Ends key a b) (sane : a.Sane)
    (clean : effects.Clean (Mark.Remembers level packetNumber) b) (recognised : a.Recognised level packetNumber) :
    b.Recognised level packetNumber := by
  obtain ⟨space, number⟩ := key
  rcases recognised with known | gone
  · left
    cases ends with
    | cutShort => exact known
    | added =>
      by_cases same : level = space
      · subst same
        rw [get_set_self]
        exact QUICAckRanges.contains_add (sane.proper level) (.inl known) (clean _ mem_cons_self rfl (.inl known))
      · simpa only [get_set_ne _ same] using known
  · right
    cases ends <;> exact gone

theorem Ends.remembers (ends : Ends (level, packetNumber) a b) (sane : a.Sane)
    (clean : effects.Clean (Mark.Remembers level packetNumber) b) :
    b.Recognised level packetNumber := by
  left
  cases ends with
  | cutShort => exact absurd ⟨rfl, rfl⟩ (clean _ mem_cons_self)
  | added =>
    rw [get_set_self]
    exact QUICAckRanges.contains_add (sane.proper level) (.inr rfl) (clean _ mem_cons_self rfl (.inr rfl))

theorem Begins.unseen (begins : Begins (level, packetNumber) a b) (once : a.Once level packetNumber) :
    a.handovers level packetNumber = 0 := by
  apply once.once.resolve_right
  intro seen
  cases begins
  case frames receivable fresh =>
    rcases seen.2 with known | gone
    · exact absurd known (by simp [fresh])
    · exact absurd receivable (by simp [gone.1])

theorem effects_sane (run : effects.Chain a b) (sane : a.Sane) : b.Sane :=
  run.keeps (fun _ _ effect _ => effect.sane) (fun _ _ => trivial) sane

theorem effects_handovers (run : effects.Chain a b) :
    b.handovers level packetNumber = a.handovers level packetNumber := by
  induction run with
  | refl => rfl
  | tail _ effect ih => exact (Effect.handovers level packetNumber effect).trans ih

theorem packet_once {a b c d : Ledger} (begins : Begins key a b) (body : effects.Chain b c) (ends : Ends key c d)
    (clean : effects.Clean (Mark.Remembers level packetNumber) d) (once : a.Once level packetNumber) :
    d.Once level packetNumber := by
  have sane : c.Sane := effects_sane body (begins.sane once.toSane)
  refine ⟨ends.sane sane, ?_⟩
  rw [ends.handovers]
  by_cases same : key = (level, packetNumber)
  · -- it was not there before, so this is the first time
    subst same
    right
    rw [effects_handovers body, begins.handovers, if_pos rfl, begins.unseen once]
    exact ⟨rfl, ends.remembers sane clean⟩
  have others : b.Once level packetNumber := by
    refine ⟨begins.sane once.toSane, ?_⟩
    rw [begins.handovers, if_neg same]
    cases begins
    exact once.once
  have after : c.Once level packetNumber := body.keeps (fun _ _ effect => effect.once) (clean.back ends.grows) others
  exact after.once.imp_right fun seen => ⟨seen.1, ends.recognised sane clean seen.2⟩

theorem machine_once (run : machine.Chain a b) (clean : machine.Clean (Mark.Remembers level packetNumber) b)
    (once : a.Once level packetNumber) :
    b.Once level packetNumber := by
  refine run.keeps (fun _ _ move clean once => ?_) clean once
  cases move with
  | step effect => exact Effect.once effect clean once
  | whole _ begins body ends => exact packet_once begins body ends clean once

theorem Initial.once {a : Ledger} (initial : a.Initial) : a.Once level packetNumber :=
  ⟨initial.sane, .inl (by simp [handovers, initial.history])⟩

end
end Ledger

namespace World
variable (P : Primitives)

/-- In every run that keeps a packet number in the ack ranges, its frames are processed at most
once. -/
theorem frames_at_most_once (w : World) (reachable : Reachable P w) (level : QUICLevel) (packetNumber : Nat)
    (remembered : ∀ mark ∈ w.conn.history, mark.Remembers level packetNumber) :
    w.conn.history.countP (Mark.isFrames level packetNumber) ≤ 1 := by
  obtain ⟨start, initial, chain⟩ := reachable.chain
  rcases (Ledger.machine_once chain remembered initial.once).once with none | ⟨one, -⟩
  · exact none.le.trans (Nat.zero_le 1)
  · exact one.le

/-- A DATAGRAM in a packet that comes three times, with another packet between. -/
theorem frames_at_most_once_datagram :
    let w := start.run .transparent [Client.hello, Client.finished,
      .receive (shortPacket 0 [0x31, 1, 7]) 3, .receive (shortPacket 0 [0x31, 1, 7]) 4,
      .receive (shortPacket 1 [1, 0, 0]) 5, .receive (shortPacket 0 [0x31, 1, 7]) 6]
    (∀ mark ∈ w.conn.history, mark.Remembers .application 0) ∧
      w.conn.history.countP (Mark.isFrames .application 0) ≤ 1 ∧
      w.conn.incomingDatagrams = [[7]] := by
  have remembered : ∀ mark ∈ (start.run .transparent [Client.hello, Client.finished,
      .receive (shortPacket 0 [0x31, 1, 7]) 3, .receive (shortPacket 0 [0x31, 1, 7]) 4,
      .receive (shortPacket 1 [1, 0, 0]) 5,
      .receive (shortPacket 0 [0x31, 1, 7]) 6]).conn.history,
      mark.Remembers .application 0 := by decide +kernel
  exact ⟨remembered, frames_at_most_once .transparent _ (start_reaches _) _ _ remembered, by decide +kernel⟩

/-- The client acknowledges the ACK of the packet, and then the packet comes again: its DATAGRAM is
delivered a second time. -/
theorem datagram_delivered_twice :
    let w := start.run .transparent [Client.hello, Client.finished,
      .receive (shortPacket 0 [0x31, 1, 7]) 3, .nextDatagram 1200 4,
      .receive (shortPacket 1 [2, 0, 0, 0, 0, 0]) 5,
      .receive (shortPacket 0 [0x31, 1, 7]) 6]
    w.conn.history.countP (Mark.isFrames .application 0) = 2 ∧ w.conn.incomingDatagrams = [[7], [7]] := by
  decide +kernel

end World
end AvianCore.Quic
