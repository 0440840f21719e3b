import AvianCore.Quic.Refine.Receive
import AvianCore.Quic.Refine.Send

/-!
Every run of a connection is a run of the ledger machine, from the ledger of a new connection.
-/

namespace AvianCore.Quic
open AvianCore.Lib Logged.Chain

namespace QUICConnection

theorem moves_releaseAck (nowMs : Nat) (c : QUICConnection) (level : QUICLevel) :
    Moves c (releaseAck nowMs c level) := by
  unfold releaseAck
  extract_lets space
  split_ifs
  · exact Moves.silent fun handed => ledger_space c level handed _ rfl rfl
  · exact .refl c

theorem moves_expireLoss (nowMs : Nat) (c : QUICConnection) (expired : Bool) (level : QUICLevel) :
    Moves c (expireLoss nowMs (c, expired) level).1 := by
  unfold expireLoss
  extract_lets current space
  split_ifs
  · have settles := QUICLossDetection.onLossTimer_settles space current.recovery nowMs
    generalize QUICLossDetection.onLossTimer space current.recovery nowMs = outcome at settles
    obtain ⟨lost, after, recovery⟩ := outcome
    have settled := moves_settle c level { lost := lost } after recovery settles
    refine settled.trans (moves_foldl _ (lost.map (Mark.lost level)) lost
      (fun c logged packet member => ?_) _ (List.subset_append_left _ _))
    exact moves_onPacketLostPublic c packet level (logged (List.mem_map_of_mem member))
  · exact .refl c

theorem moves_expires (nowMs : Nat) : Expires nowMs Moves where
  refl := Moves.refl
  trans := Moves.trans
  drained c closing := Moves.effect fun handed => Ledger.Effect.drain (c.ledger handed) closing
  idled c alive := by
    apply Moves.effect
    intro handed
    have effect := Ledger.Effect.idle (c.ledger handed) alive
    simpa [ledger, append, List.countP_append, QUICEvent.isClosed, ← add_assoc] using effect
  released := moves_releaseAck nowMs
  lost := moves_expireLoss nowMs
  counted _ := Moves.silent fun _ => rfl
  resent c resent level := by
    unfold resendCrypto
    extract_lets current stream
    split_ifs
    · exact Moves.silent fun _ => rfl
    · exact .refl c
  pinged _ := Moves.silent fun _ => rfl

end QUICConnection

namespace World

def ledger (w : World) : Ledger := w.conn.ledger (w.handed.countP QUICEvent.isClosed)

theorem ledger_closes (w : World) : w.ledger.closes = w.closedEvents := by
  simp [ledger, QUICConnection.ledger, closedEvents, List.countP_append]
  rfl

variable (P : Primitives)

theorem step_chain (w : World) (op : Op) : Ledger.machine.Chain w.ledger (w.step P op).ledger := by
  cases op with
  | receive datagram nowMs => exact QUICConnection.runs_receive P w.conn datagram nowMs _
  | nextDatagram capacity nowMs => exact (QUICConnection.moves_nextDatagram P w.conn capacity nowMs).runs _
  | onTimeout nowMs => exact ((QUICConnection.moves_expires nowMs).onTimeout w.conn).runs _
  | close code application reason => exact (QUICConnection.moves_close w.conn code application reason).runs _
  | openStream unidirectional => exact (QUICConnection.moves_openStream w.conn unidirectional).runs _
  | releaseStream id => exact (QUICConnection.moves_releaseStream w.conn id).runs _
  | send id p fin => exact (QUICConnection.moves_send w.conn id p fin).runs _
  | resetStream id code => exact (QUICConnection.moves_resetStream w.conn id code).runs _
  | stopSending id code => exact (QUICConnection.moves_stopSending w.conn id code).runs _
  | sendDatagram p => exact (QUICConnection.moves_sendDatagram w.conn p).runs _
  | extendStreamWindow id consumed => exact (QUICConnection.moves_extendStreamWindow w.conn id consumed).runs _
  | consumeReady id n => exact (QUICConnection.moves_consumeReady w.conn id n).runs _
  | setDelivered id => exact (QUICConnection.moves_setDelivered w.conn id).runs _
  | takeDatagrams => exact refl _
  | takeEvents =>
    have same : (w.step P .takeEvents).ledger = w.ledger := by
      simp [ledger, step, QUICConnection.takeEvents, QUICConnection.ledger, List.countP_append]
    rw [same]
    exact refl _

theorem run_chain (w : World) (ops : List Op) : Ledger.machine.Chain w.ledger (w.run P ops).ledger := by
  induction ops generalizing w with
  | nil => exact refl _
  | cons op rest ih => exact (step_chain P w op).trans (ih (w.step P op))

theorem Fresh.initial {w : World} (fresh : Fresh P w) : w.ledger.Initial := by
  obtain ⟨none, config, version, clientDCID, clientSCID, localCID, nowMs, made⟩ := fresh
  unfold QUICConnection.init at made
  obtain ⟨keys, _, built⟩ := Option.bind_eq_some_iff.mp made
  cases w with
  | mk conn handed =>
    subst none
    cases built
    constructor <;> try rfl
    · intro level
      cases level <;> rfl
    · intro level
      cases level <;> rfl
    · intro level valid
      cases level
      · rfl
      · cases valid
      · cases valid

theorem Reachable.chain {w : World} (reachable : Reachable P w) :
    ∃ start : Ledger, start.Initial ∧ Ledger.machine.Chain start w.ledger := by
  obtain ⟨start, ops, fresh, rfl⟩ := reachable
  exact ⟨start.ledger, fresh.initial, run_chain P start ops⟩

end World
end AvianCore.Quic
