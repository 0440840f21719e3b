import AvianCore.Quic.Refine.Bringing

/-!
Receiving, as effects on packets in transit. Only ACK frames, the end of the handshake and the arrival
itself concern them.
-/

namespace AvianCore.Quic
open AvianCore.Lib

namespace QUICConnection
variable (c : QUICConnection) {c' : QUICConnection}

theorem filter_settled (level : QUICLevel) (acked lost : List QUICSentPacket) (history : List Mark) :
    (acked.map (Mark.acked level) ++ lost.map (Mark.lost level) ++ history).filter Mark.isTransit =
      history.filter Mark.isTransit := by
  have none : ∀ {packets : List QUICSentPacket} (mark : QUICSentPacket → Mark),
      (∀ packet, (mark packet).isTransit = false) → (packets.map mark).filter Mark.isTransit = [] := by
    intro packets mark silent
    apply List.filter_eq_nil_iff.mpr
    intro entry member
    obtain ⟨packet, -, rfl⟩ := List.mem_map.mp member
    simp [silent packet]
  rw [List.filter_append, List.filter_append, none _ fun _ => rfl, none _ fun _ => rfl]
  rfl

theorem acceptAck_transit (ranges : List PacketRange) (largest delayRaw : Nat) (level : QUICLevel) (nowMs : Nat) :
    ∃ delay, (c.acceptAck ranges largest delayRaw level nowMs).transit = c.transit.settle level
      (QUICLossDetection.onAck (c.spaces.get level) c.recovery ranges largest delay nowMs).2 := by
  unfold acceptAck
  extract_lets exponent delay
  refine ⟨delay, ?_⟩
  split
  next result space recovery done =>
    rw [done]
    extract_lets c1 c2 c3
    have settled : c1.transit = c.transit.settle level (space, recovery) := by
      unfold transit Transit.settle
      simp only [c1, filter_settled]
    have acked : Still c1 c2 := still_overlooks.foldl _ (fun c packet => still_onPacketAcked c packet level) _ c1
    have lost : Still c2 c3 := still_overlooks.foldl _ (fun c packet => still_overlooks.onPacketLost c packet level) _ c2
    have both : c3.transit = c1.transit := acked.trans lost
    split_ifs <;> exact both.trans settled

theorem drifts_acceptAck (ranges : List PacketRange) (largest delayRaw : Nat) (level : QUICLevel) (nowMs : Nat) :
    Drifts c (c.acceptAck ranges largest delayRaw level nowMs) := by
  obtain ⟨delay, same⟩ := acceptAck_transit c ranges largest delayRaw level nowMs
  apply Drifts.effect
  rw [same]
  exact Transit.Effect.acknowledge c.transit level ranges largest delay nowMs

theorem drifts_stop (error : QUICError) : Drifts c (c.stop error).1 := (still_fail c error).drifts

theorem drifts_handleAck (hasECN : Bool) (level : QUICLevel) (nowMs : Nat) (r : QUICReader) :
    Drifts c (c.handleAck hasECN level nowMs r).1 := by
  apply decoded_ends (drifts_stop c)
  intro value _
  simp only
  split_ifs
  · exact drifts_stop c _
  · exact drifts_acceptAck c _ _ _ level nowMs

section
variable (P : Primitives) (c : QUICConnection) (level : QUICLevel)

theorem drifts_handleCrypto (r : QUICReader) : Drifts c (c.handleCrypto P level r).1 := by
  apply decoded_ends (drifts_stop c)
  intro value _
  simp only
  split
  · exact drifts_stop c _
  · exact drifts_stop c _
  next stream _ =>
    split_ifs
    · have fed : Still c (({ c with cryptoReceive := c.cryptoReceive.set level stream } :
          QUICConnection).feedTLS P level) := by
        unfold feedTLS
        extract_lets ready
        split_ifs <;> rfl
      have progress := fed.drifts.trans (drifts_applyTLSProgress P _)
      split
      next stopped =>
        rw [stopped] at progress
        exact progress
      next went =>
        rw [went] at progress
        exact progress
    · exact Still.drifts rfl

theorem drifts_processFrame (type : FrameType) (level : QUICLevel) (nowMs : Nat) (r : QUICReader) :
    Drifts c (c.processFrame P type level nowMs r).1 := by
  have plain (other : type ≠ .ack ∧ type ≠ .ackECN ∧ type ≠ .crypto) :
      Serves P (fun _ _ => True) c (c.processFrame P type level nowMs r).1 :=
    serves_processFrame ⟨c, level, type, nowMs, r⟩ other fun _ _ => trivial
  cases type with
  | ack => exact drifts_handleAck c false level nowMs r
  | ackECN => exact drifts_handleAck c true level nowMs r
  | crypto => exact drifts_handleCrypto P c level r
  | _ => exact (plain ⟨nofun, nofun, nofun⟩).still.drifts

theorem drifts_carries : Carries Drifts where
  refl := Drifts.refl
  trans := Drifts.trans
  started _ := Still.drifts rfl
  counted _ _ := Still.drifts rfl
  active _ _ := Still.drifts rfl

theorem drifts_nextFrame (nowMs : Nat) (r : QUICReader) : Drifts c (c.nextFrame P level nowMs r).1.1 := by
  unfold nextFrame
  split
  · exact drifts_stop c _
  · exact drifts_processFrame P c _ level nowMs _

theorem Drifts.known {c : QUICConnection} (drifts : Drifts c c') {level : QUICLevel} (known : c.transit.Known level) :
    c'.transit.Known level := by
  apply Logged.Chain.keeps_always (I := fun a => a.Known level) drifts _ known
  intro a b effect known
  have older : a.log ⊆ b.log := effect.grows.subset
  rcases known with keyed | ⟨before, logged⟩
  · cases effect with
    | arrive | note | acknowledge | expire | recover => exact .inl keyed
    | discard other =>
      by_cases here : level = other
      · exact .inr ⟨a.spaces.get other, here ▸ List.mem_cons_self⟩
      · exact .inl ((PerLevel.get_set_ne _ here _).trans keyed)
    | install installed grows => exact .inl (grows level keyed)
  · exact .inr ⟨before, older logged⟩

theorem drifts_recordArrival (packetNumber : Nat) (ackEliciting : Bool) (nowMs : Nat) (known : c.transit.Known level) :
    Drifts c (c.recordArrival level packetNumber ackEliciting nowMs) := by
  have effect := Transit.Effect.arrive c.transit level
    ((c.recordArrival level packetNumber ackEliciting nowMs).spaces.get level)
    (c.spaces.get level).acks packetNumber
  apply Drifts.effect
  unfold recordArrival at effect ⊢
  cases level <;> cases ackEliciting <;> simp only at effect ⊢ <;> split_ifs at effect ⊢ <;>
    exact effect ⟨rfl, rfl, rfl, rfl, rfl, rfl⟩ known

theorem drifts_processPayload (packet : QUICProtect.Opened) (nowMs : Nat) (keyed : (c.keys.get level).isKeyed = true) :
    Drifts c (c.processPayload P level packet nowMs) := by
  have body := drifts_carries.frameLoop (fun c r => drifts_nextFrame P c level nowMs r)
    (packet.payload.length + 1) (c.mark (.frames level packet.packetNumber)) false ⟨packet.payload, 0⟩
  have known : c.transit.Known level := .inl ((transit_keyed c level).trans keyed)
  unfold processPayload processFrames
  extract_lets c1
  have marked : Drifts c c1 := Still.drifts rfl
  have all := marked.trans body
  split
  next c2 stopped =>
    rw [stopped] at all
    exact all.trans (Still.drifts rfl)
  next c2 ackEliciting done =>
    rw [done] at all
    exact all.trans (drifts_recordArrival c2 level _ _ nowMs (all.known known))

theorem drifts_acceptPacket (packet : QUICProtect.Opened) (nowMs : Nat)
    (valid : (c.keys.get level).receive.isValid = true) :
    Drifts c (c.acceptPacket P level packet nowMs) := by
  have keys := (validateAddress_spec c level).2
  have validated : Drifts c (c.validateAddress level) := by
    unfold validateAddress
    split_ifs
    · have noted : Still c { c with addressValidated := true } := rfl
      exact noted.drifts.trans (drifts_discardSpace _ .initial)
    · exact .refl c
  unfold acceptPacket
  extract_lets c1
  split_ifs
  · exact validated
  apply validated.trans (drifts_processPayload P c1 level packet nowMs _)
  rw [show c1.keys.get level = c.keys.get level from keys]
  simp [QUICKeyPair.isKeyed, valid]

theorem still_openPacket (p : Bytes) (header : QUICPacketHeader) (level : QUICLevel) (nowMs : Nat)
    (valid : (c.keys.get level).receive.isValid = true) :
    Still c (c.openPacket P p header level nowMs).1 := by
  unfold openPacket
  split_ifs with application
  · subst application
    unfold openOneRTT
    extract_lets receive
    split
    · rfl
    split_ifs with same previous next
    · rfl
    · rfl
    · split
      · exact still_commitKeyUpdate P c nowMs _ next.2 valid
      · rfl
    · rfl
  · rfl

theorem drifts_receivePacket (p : Bytes) (header : QUICPacketHeader) (level : QUICLevel) (nowMs : Nat) :
    Drifts c (c.receivePacket P p header level nowMs).1 := by
  unfold receivePacket
  split_ifs with other closed
  · exact .refl c
  · exact .refl c
  have valid : (c.keys.get level).receive.isValid = true := by simpa using closed
  have opened := still_openPacket P c p header level nowMs valid
  have receivable := openPacket_ledger P c p header level nowMs valid 0
  split
  next c1 failed =>
    rw [failed] at opened
    exact opened.drifts
  next c1 packet done =>
    rw [done] at opened receivable
    have still : (c1.keys.get level).receive.isValid = true := by
      rw [← ledger_receivable c1 0, receivable, ledger_receivable, valid]
    exact opened.drifts.trans (drifts_acceptPacket P c1 level packet nowMs still)

theorem drifts_receive (datagram : Bytes) (nowMs : Nat) : Drifts c (c.receive P datagram nowMs) :=
  drifts_carries.receive c datagram nowMs fun q _ => drifts_receivePacket P q.conn q.p q.header q.level q.nowMs

end
end QUICConnection
end AvianCore.Quic
