import AvianCore.Quic.Refine.Departure

/-!
Sending and timers leave the standing of a connection alone, but for the event that ends an idle
connection. Every run is then a run of the machine.
-/

namespace AvianCore.Quic
open AvianCore.Lib Logged.Chain

namespace QUICConnection
variable {P : Primitives} {ok : Stage → Act → Prop} (c : QUICConnection) {c' c'' : QUICConnection} (nowMs : Nat)

theorem stands_sealAll (planned : List PlannedPacket) (c : QUICConnection)
    (out : Datagram) : Stands c (sealAll P nowMs planned c out).1 := by
  induction planned generalizing c out with
  | nil => exact .refl c
  | cons packet rest ih =>
    unfold sealAll
    split
    · exact .refl c
    next sealed _ =>
      have sent : Stands c (c.recordSent packet sealed.length nowMs) := fun _ => rfl
      exact sent.trans (ih _ _)

theorem stands_buildDatagram (budget nowMs : Nat) : Stands c (c.buildDatagram P budget nowMs).1 := by
  unfold buildDatagram
  extract_lets windowFull ackOnly
  have planned := (planPackets_drafts budget ackOnly nowMs [.initial, .handshake, .application] c 0).1.stands
  split
  next c1 nothing =>
    rw [nothing] at planned
    exact planned
  next c1 packets _ done =>
    rw [done] at planned
    extract_lets padded
    have sent := stands_sealAll (P := P) nowMs padded c1 {}
    split
    next c2 failed =>
      rw [failed] at sent
      exact planned.trans sent
    next c2 out went =>
      rw [went] at sent
      exact (planned.trans sent).trans fun _ => rfl

theorem stands_buildClose (budget nowMs : Nat) : Stands c (c.buildClose P budget nowMs).1 := by
  intro handed
  unfold buildClose
  dsimp only
  split
  · rfl
  split
  · rfl
  · split <;> rfl

theorem stands_nextDatagram (capacity nowMs : Nat) : Stands c (c.nextDatagram P capacity nowMs).1 := by
  unfold nextDatagram
  dsimp only
  split
  · exact .refl c
  split
  · exact .refl c
  split
  · exact stands_buildClose c _ nowMs
  · exact stands_buildDatagram c _ nowMs

theorem stands_releaseAck (c : QUICConnection) (level : QUICLevel) : Stands c (releaseAck nowMs c level) := by
  intro handed
  unfold releaseAck
  dsimp only
  split <;> rfl

theorem stands_expireLoss (c : QUICConnection) (expired : Bool) (level : QUICLevel) :
    Stands c (expireLoss nowMs (c, expired) level).1 := by
  unfold expireLoss
  extract_lets current space
  split
  · split
    next lost after recovery done =>
      extract_lets c1
      have settled : Stands c c1 := by
        intro handed
        unfold standing
        have none := retired_settled level [] lost c.history
        simp only [List.map_nil, List.nil_append] at none
        simp only [c1, current, none]
        rfl
      exact settled.trans (stands_overlooks.foldl _ (fun c packet => stands_overlooks.onPacketLostPublic c packet level) _ c1)
  · exact .refl c

theorem proceeds_expires : Expires nowMs (Proceeds P ok) where
  refl := Proceeds.refl
  trans := Proceeds.trans
  drained _ _ := Stands.proceeds fun _ => rfl
  idled c _ := by
    have drained : Stands c { c with status := .drained } := fun _ => rfl
    apply drained.proceeds.trans
    exact proceeds_append _ _ false (.inl rfl) (fun impossible => by cases impossible)
  released c level := (stands_releaseAck nowMs c level).proceeds
  lost c expired level := (stands_expireLoss nowMs c expired level).proceeds
  counted _ := Stands.proceeds fun _ => rfl
  resent c resent level := by
    apply Stands.proceeds
    intro handed
    unfold resendCrypto
    dsimp only
    split <;> rfl
  pinged _ := Stands.proceeds fun _ => rfl

end QUICConnection

namespace World
variable (P : Primitives)

def standing (w : World) : Standing := w.conn.standing w.handed

def meetings (w : World) : Op → List Meeting
  | .receive datagram nowMs => w.conn.receiveMeetings P datagram nowMs
  | _ => []

def runMeetings : World → List Op → List Meeting
  | _, [] => []
  | w, op :: rest => w.meetings P op ++ runMeetings (w.step P op) rest

variable {ok : Stage → Act → Prop}

theorem step_standing (w : World) (op : Op)
    (allowed : ∀ m ∈ w.meetings P op, ∀ act, m.Brings act → ok m.conn.stage act) :
    (Standing.machine P ok).Chain w.standing (w.step P op).standing := by
  cases op with
  | receive datagram nowMs => exact QUICConnection.proceeds_receive w.conn datagram nowMs allowed _
  | nextDatagram capacity nowMs => exact (QUICConnection.stands_nextDatagram w.conn capacity nowMs).proceeds _
  | onTimeout nowMs => exact (QUICConnection.proceeds_expires nowMs).onTimeout w.conn _
  | close code application reason => exact QUICConnection.proceeds_close w.conn code application reason _
  | openStream unidirectional => exact QUICConnection.proceeds_openStream w.conn unidirectional _
  | releaseStream id => exact QUICConnection.proceeds_releaseStream w.conn id _
  | send id p fin => exact (QUICConnection.stands_overlooks.send w.conn id p fin).proceeds _
  | resetStream id code => exact (QUICConnection.stands_overlooks.resetStream w.conn id code).proceeds _
  | stopSending id code => exact (QUICConnection.stands_overlooks.stopSending w.conn id code).proceeds _
  | sendDatagram p => exact (QUICConnection.stands_overlooks.sendDatagram w.conn p).proceeds _
  | extendStreamWindow id consumed =>
    exact (QUICConnection.stands_overlooks.extendStreamWindow w.conn id consumed).proceeds _
  | consumeReady id n | setDelivered id => exact (QUICConnection.stands_modifyStream w.conn id _).proceeds _
  | takeDatagrams => exact refl _
  | takeEvents =>
    have same : (w.step P .takeEvents).standing = w.standing := by
      simp only [standing, step, QUICConnection.takeEvents, QUICConnection.standing, List.append_nil]
      rfl
    rw [same]
    exact refl _

theorem run_standing (w : World) (ops : List Op)
    (allowed : ∀ m ∈ w.runMeetings P ops, ∀ act, m.Brings act → ok m.conn.stage act) :
    (Standing.machine P ok).Chain w.standing (w.run P ops).standing := by
  induction ops generalizing w with
  | nil => exact refl _
  | cons op rest ih =>
    have first := step_standing P w op fun m met => allowed m (List.mem_append_left _ met)
    exact first.trans (ih (w.step P op) fun m met => allowed m (List.mem_append_right _ met))

/-- Whatever calls are made, in whatever order, and whatever the peer sends: the connection does only what the ledger
and the standing do. -/
theorem run_refines_machines (w : World) (ops : List Op) : Ledger.machine.Chain w.ledger (w.run P ops).ledger ∧
    (Standing.machine P fun _ _ => True).Chain w.standing (w.run P ops).standing :=
  ⟨run_chain P w ops, run_standing P w ops fun _ _ _ _ => trivial⟩

end World

end AvianCore.Quic
