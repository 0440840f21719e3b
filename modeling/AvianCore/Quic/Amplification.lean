import AvianCore.Quic.Refine.Run

/-!
How much a server sends to an address that is not validated, and how much it puts in a datagram.
-/

namespace AvianCore.Quic
open AvianCore.Lib QUICFrameWriter

def QUICFrameWriter.Fits (writer : QUICFrameWriter) : Prop := writer.offset ≤ writer.limit

instance (writer : QUICFrameWriter) : Decidable writer.Fits := inferInstanceAs (Decidable (_ ≤ _))

theorem QUICFrameWriter.Extends.fits {before after : QUICFrameWriter} (extends' : Extends before after)
    (small : before.limit < 0x4000) (fits : before.Fits) : after.Fits :=
  extends'.within small fits

/-- Every frame writer stops at the limit of the packet. -/
structure Draft.WritersFit (d : Draft) : Prop where
  ack : ∀ level nowMs, (d.writeAck level nowMs).1.writer.Fits
  handshakeDone : d.writeHandshakeDone.writer.Fits
  pathResponses : ∀ responses, (Draft.writePathResponses responses d).writer.Fits
  maxData : d.writeMaxData.writer.Fits
  maxStreamsBidi : d.writeMaxStreamsBidi.writer.Fits
  maxStreamsUni : d.writeMaxStreamsUni.writer.Fits
  datagrams : ∀ payloads, (Draft.writeDatagrams payloads d).writer.Fits
  stopSending : ∀ s id, ((⟨d, s⟩ : Turn).writeStopSending id).draft.writer.Fits
  reset : ∀ s id code, ((⟨d, s⟩ : Turn).writeReset id code).draft.writer.Fits
  maxStreamData : ∀ s id, ((⟨d, s⟩ : Turn).writeMaxStreamData id).draft.writer.Fits
  oneStream : ∀ s id, ((⟨d, s⟩ : Turn).writeOneStream id).1.draft.writer.Fits
  streamFrames : d.writeStreamFrames.writer.Fits
  crypto : ∀ level, (d.writeCrypto level).writer.Fits
  ping : d.writePing.writer.Fits
  close : ∀ c : QUICConnection, ∀ level, 16 ≤ d.writer.room → (c.writeClose level d.writer).Fits

theorem Draft.writersFit (d : Draft) (small : d.writer.limit < 0x4000) (fits : d.writer.Fits) : d.WritersFit where
  ack level nowMs := (writeAck_extends d level nowMs).fits small fits
  handshakeDone := (writeHandshakeDone_extends d).fits small fits
  pathResponses responses := (writePathResponses_extends responses d).fits small fits
  maxData := (writeLimit_extends d _ _ _ _ _ (by decide)).fits small fits
  maxStreamsBidi := (writeLimit_extends d _ _ _ _ _ (by decide)).fits small fits
  maxStreamsUni := (writeLimit_extends d _ _ _ _ _ (by decide)).fits small fits
  datagrams payloads := (writeDatagrams_extends payloads d).fits small fits
  stopSending s id := (Turn.writeStopSending_extends ⟨d, s⟩ id).fits small fits
  reset s id code := (Turn.writeReset_extends ⟨d, s⟩ id code).fits small fits
  maxStreamData s id := (Turn.writeMaxStreamData_extends ⟨d, s⟩ id).fits small fits
  oneStream s id := (Turn.writeOneStream_extends ⟨d, s⟩ id).fits small fits
  streamFrames := (writeStreamFrames_extends d).fits small fits
  crypto level := (writeCrypto_extends d level).fits small fits
  ping := (writePing_extends d).fits small fits
  close c level room := (QUICConnection.writeClose_extends c level d.writer room).fits small fits

namespace Ledger

/-- What was sent to an address that is not validated is at most three times what it sent. -/
def Restrained (a : Ledger) : Prop :=
  a.amplification.addressValidated = false → a.amplification.bytesSent ≤ 3 * a.amplification.bytesReceived

theorem Effect.restrained {a b : Ledger} (effect : Effect a b) (before : a.Restrained) : b.Restrained := by
  cases effect
  case received n =>
    intro unvalidated
    have most := before unvalidated
    simp only
    omega
  case validated => exact nofun
  case sentBytes n within => exact within
  case data | resetReceived | overcharge =>
    unfold charge
    split_ifs <;> exact before
  all_goals exact before

theorem machine_restrained {a b : Ledger} (run : machine.Chain a b) (start : a.Restrained) : b.Restrained := by
  refine machine_keeps run (fun _ _ effect _ => effect.restrained) ?_ ?_ (fun _ _ => trivial) start
  · rintro key s t ⟨⟩ before
    exact before
  · rintro key s t ⟨⟩ before <;> exact before

end Ledger

namespace QUICConnection

theorem sendBudget_le (c : QUICConnection) (capacity : Nat) :
    c.sendBudget capacity ≤ min capacity c.recovery.maxDatagramSize ∧
      (c.addressValidated = false → c.sendBudget capacity ≤ 3 * c.bytesReceived - c.bytesSent) := by
  unfold sendBudget
  extract_lets budget
  split_ifs with validated
  · exact ⟨le_rfl, fun unvalidated => by simp [unvalidated] at validated⟩
  · exact ⟨min_le_left _ _, fun _ => min_le_right _ _⟩

end QUICConnection

namespace World
variable (P : Primitives)

/-- In every reachable state, what was sent to an unvalidated address is at most three times what
came from it, the next datagram keeps to its allowance, and no writer runs past its limit. -/
theorem datagram_within_allowance (w : World) (reachable : Reachable P w) :
    (w.conn.addressValidated = false → w.conn.bytesSent ≤ 3 * w.conn.bytesReceived) ∧ (∀ capacity nowMs,
        (w.conn.nextDatagram P capacity nowMs).2.count ≤ min capacity w.conn.recovery.maxDatagramSize ∧
          (w.conn.addressValidated = false →
            (w.conn.nextDatagram P capacity nowMs).2.count ≤ 3 * w.conn.bytesReceived - w.conn.bytesSent)) ∧
      (∀ d : Draft, d.writer.limit ≤ w.conn.recovery.maxDatagramSize → d.writer.Fits → d.WritersFit) ∧
      (∀ level start limit ackOnly nowMs packet, limit ≤ w.conn.recovery.maxDatagramSize →
        (w.conn.buildPacket level start limit ackOnly nowMs).2 = some packet → packet.end ≤ limit) := by
  obtain ⟨start, initial, chain⟩ := reachable.chain
  have none : start.Restrained := fun _ => by simp [initial.amplification]
  have size : w.conn.recovery.maxDatagramSize = 1200 := rfl
  refine ⟨Ledger.machine_restrained chain none, fun capacity nowMs => ?_, fun d small fits => ?_, ?_⟩
  · have count := QUICConnection.nextDatagram_count_le P w.conn capacity nowMs
    obtain ⟨most, allowed⟩ := QUICConnection.sendBudget_le w.conn capacity
    exact ⟨count.trans most, fun unvalidated => count.trans (allowed unvalidated)⟩
  · exact d.writersFit (by omega) fits
  · intro level start limit ackOnly nowMs packet small built
    exact (QUICConnection.buildPacket_planned (by omega) built).within

/-- The first flight of the handshake, to an address that has sent one datagram. -/
theorem datagram_within_allowance_hello : (start.run .transparent [Client.hello]).conn.addressValidated = false ∧
      ((start.run .transparent [Client.hello]).conn.nextDatagram .transparent 1200 2).2.count ≤
        3 * (start.run .transparent [Client.hello]).conn.bytesReceived := by
  have bounds := datagram_within_allowance .transparent (start.run .transparent [Client.hello]) (start_reaches _)
  have unvalidated : (start.run .transparent [Client.hello]).conn.addressValidated = false := by decide +kernel
  exact ⟨unvalidated, ((bounds.2.1 1200 2).2 unvalidated).trans (Nat.sub_le _ _)⟩

end World
end AvianCore.Quic
