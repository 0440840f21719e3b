import AvianCore.Quic.Refine.Run

/-!
The status of a connection over a run, and the one `closed` event.
-/

namespace AvianCore.Quic
open AvianCore.Lib Status List

def Status.rank : Status → Nat
  | .handshaking => 0
  | .connected => 1
  | .closing => 2
  | .drained => 3

theorem Status.isClosing_iff (status : Status) : status.isClosing = true ↔ 2 ≤ status.rank := by
  cases status <;> decide

/-- No CONNECTION_CLOSE frame and no end of the handshake comes after a close has begun. -/
def Mark.Timely : Mark → Prop
  | .peerClose before => before.isClosing = false
  | .completed before => before.isClosing = false
  | _ => True

instance : DecidablePred Mark.Timely := fun mark => by
  apply Mark.casesOn (motive := fun mark => Decidable mark.Timely) mark <;>
    intros <;> dsimp only [Mark.Timely] <;> infer_instance

namespace Ledger

/-- The `closed` event was appended just when the connection began to close. -/
structure ClosesOnce (a : Ledger) : Prop where
  closes : a.closes = if a.status.isClosing then 1 else 0
  heard : ∀ before, Mark.peerClose before ∈ a.history → a.status.isClosing = true

theorem Initial.closesOnce {a : Ledger} (initial : a.Initial) : a.ClosesOnce where
  closes := by
    rw [initial.closes, initial.status]
    rfl
  heard := by simp [initial.history]

variable {a b : Ledger}

theorem Effect.rank_le (effect : Effect a b) (timely : effects.Clean Mark.Timely b) :
    a.status.rank ≤ b.status.rank := by
  cases effect
  case close alive => cases status : a.status <;> simp_all [rank, isClosing]
  case peerClose =>
    have early : a.status.isClosing = false := timely _ mem_cons_self
    cases status : a.status <;> simp_all [rank, isClosing]
  case drain closing => simp [closing, rank]
  case idle alive => cases status : a.status <;> simp [rank]
  case completed =>
    have early : a.status.isClosing = false := timely _ mem_cons_self
    cases status : a.status <;> simp_all [rank, isClosing]
  case data | resetReceived | overcharge =>
    unfold charge
    split_ifs <;> exact le_rfl
  all_goals exact le_rfl

theorem ClosesOnce.quiet (once : a.ClosesOnce) (status : b.status = a.status) (closes : b.closes = a.closes)
    (heard : ∀ before, Mark.peerClose before ∈ b.history → .peerClose before ∈ a.history) :
    b.ClosesOnce := by
  refine ⟨?_, fun before member => ?_⟩
  · rw [closes, status]
    exact once.closes
  · rw [status]
    exact once.heard before (heard before member)

theorem Effect.closesOnce (effect : Effect a b) (timely : effects.Clean Mark.Timely b) (once : a.ClosesOnce) :
    b.ClosesOnce := by
  have zero : a.status.isClosing = false → a.closes = 0 := fun alive => by simp [once.closes, alive]
  cases effect
  case close alive =>
    refine ⟨?_, fun _ _ => rfl⟩
    rw [zero (by simpa using alive)]
    rfl
  case peerClose =>
    refine ⟨?_, fun _ _ => rfl⟩
    rw [zero (timely _ mem_cons_self)]
    rfl
  case drain closing =>
    have one := once.closes
    rw [closing] at one
    exact ⟨one, fun _ _ => rfl⟩
  case idle alive =>
    refine ⟨?_, fun _ _ => rfl⟩
    rw [zero (by simpa using alive)]
    rfl
  case completed =>
    have early : a.status.isClosing = false := timely _ mem_cons_self
    refine ⟨zero early, fun before member => ?_⟩
    simp only [mem_cons, reduceCtorEq, false_or] at member
    exact absurd (once.heard before member) (by simp [early])
  case retire | maxData | maxStreamData | send | discard =>
    exact once.quiet rfl rfl fun before member => by simpa [mark] using member
  case turn reset _ _ _ _ =>
    refine once.quiet rfl rfl fun before member => ?_
    cases reset <;> simpa using member
  case settle => exact once.quiet rfl rfl fun before member => by simpa using member
  case data growth _ _ _ _ _ _ _ =>
    unfold charge
    split_ifs
    · exact once.quiet rfl rfl fun _ member => member
    · exact once.quiet rfl rfl fun before member => by simpa using member
  case resetReceived =>
    unfold charge
    split_ifs <;> exact once.quiet rfl rfl fun before member => by simpa [mark] using member
  case overcharge =>
    unfold charge
    split_ifs
    · exact once
    · exact once.quiet rfl rfl fun before member => by simpa using member
  all_goals exact once.quiet rfl rfl fun _ member => member

theorem machine_rank_le (run : machine.Chain a b) (timely : machine.Clean Mark.Timely b) :
    a.status.rank ≤ b.status.rank := by
  refine machine_keeps (I := fun s => a.status.rank ≤ s.status.rank) run
    (fun s t effect timely before => before.trans (effect.rank_le timely)) ?_ ?_ timely le_rfl
  · rintro key s t ⟨⟩ before
    exact before
  · rintro key s t ⟨⟩ before <;> exact before

theorem machine_closesOnce (run : machine.Chain a b) (timely : machine.Clean Mark.Timely b) (start : a.ClosesOnce) :
    b.ClosesOnce := by
  refine machine_keeps run (fun s t effect timely once => effect.closesOnce timely once) ?_ ?_ timely start
  · rintro key s t ⟨⟩ once
    exact once.quiet rfl rfl fun before member => by simpa [mark] using member
  · rintro key s t ⟨⟩ once <;> exact once.quiet rfl rfl fun before member => by simpa [mark] using member

end Ledger

namespace World
variable (P : Primitives)

theorem run_append (w : World) (ops later : List Op) :
    w.run P (ops ++ later) = (w.run P ops).run P later := foldl_append

theorem close_run_isClosing (w : World) (ops : List Op) (code : Nat) (application : Bool)
    (reason : Bytes) (called : Op.close code application reason ∈ ops)
    (timely : ∀ mark ∈ (w.run P ops).conn.history, mark.Timely) :
    (w.run P ops).conn.status.isClosing = true := by
  obtain ⟨before, after, rfl⟩ := append_of_mem called
  have split : w.run P (before ++ .close code application reason :: after) =
      ((w.run P before).step P (.close code application reason)).run P after := by
    rw [run_append]
    rfl
  rw [split] at timely ⊢
  have closing := QUICConnection.close_isClosing (w.run P before).conn code application reason
  rw [isClosing_iff] at closing ⊢
  exact closing.trans (Ledger.machine_rank_le (run_chain P _ after) timely)

/-- In every run in which no CONNECTION_CLOSE is read and no handshake ends after a close has
begun, the status moves forward only, and the `closed` event is appended once. -/
theorem status_forward (start : World) (fresh : Fresh P start) (ops later : List Op)
    (timely : ∀ mark ∈ ((start.run P ops).run P later).conn.history, mark.Timely) :
    (start.run P ops).conn.status.rank ≤ ((start.run P ops).run P later).conn.status.rank ∧
      ((∃ code application reason, Op.close code application reason ∈ ops) ∨
          (∃ before, Mark.peerClose before ∈ (start.run P ops).conn.history) →
        ((start.run P ops).run P later).conn.status.isClosing = true) ∧
      ((start.run P ops).run P later).closedEvents =
        if ((start.run P ops).run P later).conn.status.isClosing then 1 else 0 := by
  have chain := run_chain P (start.run P ops) later
  have forward := Ledger.machine_rank_le chain timely
  have early : ∀ mark ∈ (start.run P ops).conn.history, mark.Timely :=
    fun mark member => timely mark (chain.grows.subset member)
  have once := Ledger.machine_closesOnce (run_chain P start ops) early fresh.initial.closesOnce
  have last := Ledger.machine_closesOnce chain timely once
  refine ⟨forward, fun closed => ?_, ?_⟩
  · have closing : (start.run P ops).conn.status.isClosing = true := by
      rcases closed with ⟨code, application, reason, called⟩ | ⟨before, heard⟩
      · exact close_run_isClosing P start ops code application reason called early
      · exact once.heard before heard
    rw [Status.isClosing_iff] at closing ⊢
    exact closing.trans forward
  · rw [← ledger_closes]
    exact last.closes

/-- A connection that closes during the handshake. -/
theorem status_forward_closing : (start.run .transparent [Client.hello, .close 7 false []]).conn.status = .closing ∧
      ((start.run .transparent [Client.hello, .close 7 false []]).run .transparent
        [.nextDatagram 1200 2]).closedEvents = 1 := by
  have forward := status_forward .transparent start start_fresh [Client.hello, .close 7 false []]
    [.nextDatagram 1200 2] (by decide +kernel)
  have closing := forward.2.1 (Or.inl ⟨7, false, [], by simp⟩)
  exact ⟨by decide +kernel, forward.2.2.trans (if_pos closing)⟩

/-- A CONNECTION_CLOSE after `close` appends a second event, and the end of the handshake puts a
closing connection back to connected. -/
theorem closes_twice_and_revives : (start.run .transparent [.close 7 false [],
        .receive (Client.initialPacket 0 [0x1c, 0, 0, 0]) 1]).closedEvents = 2 ∧
      (start.run .transparent [Client.hello, .close 7 false []]).conn.status = .closing ∧
      (start.run .transparent [Client.hello, .close 7 false [], Client.finished]).conn.status =
        .connected := by
  decide +kernel

end World
end AvianCore.Quic
