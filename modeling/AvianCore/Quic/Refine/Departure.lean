import AvianCore.Quic.Refine.Arrival

/-!
Sending and timers, as effects on packets in transit. Laying out packets uses no packet number; sealing
them does, one for each level, and a packet that cannot be sealed ends the call.
-/

namespace AvianCore.Quic
open AvianCore.Lib Transit.Effect

namespace QUICConnection
variable {c c' c'' : QUICConnection}

/-- A change that concerns neither packets in transit nor the keys. -/
structure Rests (c c' : QUICConnection) : Prop where
  still : c.Still c'
  identity : c'.toIdentity = c.toIdentity
  crypto : c'.toCryptoState = c.toCryptoState

theorem Rests.refl (c : QUICConnection) : c.Rests c := ⟨rfl, rfl, rfl⟩

theorem Rests.trans (first : c.Rests c') (second : c'.Rests c'') : c.Rests c'' where
  still := first.still.trans second.still
  identity := second.identity.trans first.identity
  crypto := second.crypto.trans first.crypto

/-- A change that leaves the standing alone as well. -/
structure Spares (c c' : QUICConnection) : Prop extends c.Rests c' where
  stands : c.Stands c'

theorem Spares.refl (c : QUICConnection) : c.Spares c := ⟨.refl c, .refl c⟩

theorem Spares.trans (first : c.Spares c') (second : c'.Spares c'') : c.Spares c'' :=
  ⟨first.toRests.trans second.toRests, first.stands.trans second.stands⟩

/-- Laying out packets: nothing is sent, and the keys stay. -/
structure LaysOut (c c' : QUICConnection) : Prop where
  drifts : Drifts c c'
  identity : c'.toIdentity = c.toIdentity
  crypto : c'.toCryptoState = c.toCryptoState
  spaces : ∀ level, (c'.spaces.get level).SendsLike (c.spaces.get level)

theorem Rests.laysOut (rests : c.Rests c') : c.LaysOut c' where
  drifts := rests.still.drifts
  identity := rests.identity
  crypto := rests.crypto
  spaces level := by
    have same : c'.spaces = c.spaces := congrArg Transit.spaces rests.still
    rw [same]
    exact .refl _

theorem LaysOut.trans (first : c.LaysOut c') (second : c'.LaysOut c'') : c.LaysOut c'' where
  drifts := first.drifts.trans second.drifts
  identity := second.identity.trans first.identity
  crypto := second.crypto.trans first.crypto
  spaces level := (first.spaces level).trans (second.spaces level)

/-- Laying out packets also leaves the standing alone. -/
structure Drafts (c c' : QUICConnection) : Prop extends c.LaysOut c' where
  stands : Stands c c'

theorem Spares.drafts (spares : c.Spares c') : c.Drafts c' := ⟨spares.toRests.laysOut, spares.stands⟩

theorem Drafts.refl (c : QUICConnection) : c.Drafts c := (Spares.refl c).drafts

theorem Drafts.trans (first : c.Drafts c') (second : c'.Drafts c'') : c.Drafts c'' :=
  ⟨first.toLaysOut.trans second.toLaysOut, first.stands.trans second.stands⟩

end QUICConnection

namespace Turn
open QUICConnection

variable (turn : Turn)

theorem writeReset_spares (id code : Nat) : turn.draft.conn.Spares (turn.writeReset id code).draft.conn := by
  unfold writeReset
  extract_lets final
  split_ifs
  · exact .refl _
  · exact ⟨⟨rfl, rfl, rfl⟩, fun _ => rfl⟩

theorem commit_spares (id : Nat) : turn.draft.conn.Spares (turn.commit id).conn :=
  ⟨⟨rfl, rfl, rfl⟩, stands_modifyStream turn.draft.conn id fun _ => turn.stream⟩

theorem recordStream_spares (id offset length : Nat) (fin isRetransmit : Bool) :
    turn.draft.conn.Spares (turn.recordStream id offset length fin isRetransmit).draft.conn := by
  unfold recordStream
  cases isRetransmit <;> exact ⟨⟨rfl, rfl, rfl⟩, fun _ => rfl⟩

theorem writeOneStream_spares (id : Nat) : turn.draft.conn.Spares (turn.writeOneStream id).1.draft.conn := by
  have wrote := turn.writeOneStream_cases id
  generalize turn.writeOneStream id = result at wrote
  cases wrote with
  | nothing | broken available length fin chosen => exact .refl _
  | frame available length fin data chosen =>
    exact recordStream_spares { turn with draft := { turn.draft with writer := _ } } id
      (nextStretch turn.stream.send).offset length fin _

end Turn

namespace Draft
open QUICConnection

theorem streamWalk_spares (ids : List Nat) (d : Draft) (deferred : List Nat) :
    d.conn.Spares (streamWalk ids d deferred).1.conn := by
  induction ids generalizing d deferred with
  | nil => exact .refl _
  | cons id rest ih =>
    unfold streamWalk
    split
    · exact .refl _
    split
    · have unmarked : d.conn.Spares (d.unmark id).conn := ⟨⟨rfl, rfl, rfl⟩, fun _ => rfl⟩
      exact unmarked.trans (ih (d.unmark id) deferred)
    next stream _ =>
      extract_lets d1 turn
      have begun : d.conn.Spares turn.draft.conn := by
        rw [(Turn.writeStopSending_steady ⟨d1, stream⟩ id).conn]
        exact ⟨⟨rfl, rfl, rfl⟩, fun _ => rfl⟩
      split
      next code _ =>
        have reset : d.conn.Spares (((turn.writeReset id code).commit id).unmark id).conn :=
          ((begun.trans (turn.writeReset_spares id code)).trans (Turn.commit_spares _ id)).trans
            ⟨⟨rfl, rfl, rfl⟩, fun _ => rfl⟩
        exact reset.trans (ih _ deferred)
      · have wrote := (turn.writeMaxStreamData id).writeOneStream_spares id
        rw [(Turn.writeMaxStreamData_steady turn id).conn] at wrote
        split
        next turn' wrote' done =>
          rw [done] at wrote
          extract_lets d2 d3
          have served : d.conn.Spares d2.conn := (begun.trans wrote).trans (turn'.commit_spares id)
          have unmarked : d.conn.Spares d3.conn := served.trans ⟨⟨rfl, rfl, rfl⟩, fun _ => rfl⟩
          split_ifs
          · exact served
          · exact served.trans (ih _ _)
          · exact unmarked
          · exact unmarked.trans (ih _ _)

variable (d : Draft)

theorem writeStreamFrames_spares : d.conn.Spares d.writeStreamFrames.conn := by
  have walked := streamWalk_spares d.conn.writable d []
  unfold writeStreamFrames
  split
  next d' unreached deferred done =>
    rw [done] at walked
    exact walked.trans ⟨⟨rfl, rfl, rfl⟩, fun _ => rfl⟩

theorem writePathResponses_spares (responses : List Bytes) (d : Draft) :
    d.conn.Spares (writePathResponses responses d).conn := by
  induction responses generalizing d with
  | nil => exact .refl _
  | cons response rest ih =>
    unfold writePathResponses
    split_ifs
    · apply Spares.trans _ (ih _)
      exact ⟨⟨rfl, rfl, rfl⟩, fun _ => rfl⟩
    · exact .refl _

theorem writeLimit_spares (pending : Bool) (type : FrameType) (limit : Nat) (done : QUICConnection → QUICConnection)
    (note : QUICSentFrames → QUICSentFrames) (spares : d.conn.Spares (done d.conn)) :
    d.conn.Spares (d.writeLimit pending type limit done note).conn := by
  unfold writeLimit
  split_ifs
  · exact spares
  · exact .refl _

theorem writeDatagrams_spares (payloads : List Bytes) (d : Draft) : d.conn.Spares (writeDatagrams payloads d).conn := by
  induction payloads generalizing d with
  | nil => exact .refl _
  | cons payload rest ih =>
    unfold writeDatagrams
    split_ifs
    · exact .refl _
    · apply Spares.trans _ (ih _)
      exact ⟨⟨rfl, rfl, rfl⟩, fun _ => rfl⟩

theorem writeApplicationFrames_spares : d.conn.Spares d.writeApplicationFrames.conn := by
  unfold writeApplicationFrames
  extract_lets d1 d2 d3 d4 d5 d6
  have done : d.conn.Spares d1.conn := by
    simp only [d1, writeHandshakeDone]
    split_ifs <;> exact ⟨⟨rfl, rfl, rfl⟩, fun _ => rfl⟩
  have responses : d1.conn.Spares d2.conn := writePathResponses_spares _ d1
  have maxData : d2.conn.Spares d3.conn := writeLimit_spares d2 _ _ _ _ _ ⟨⟨rfl, rfl, rfl⟩, fun _ => rfl⟩
  have maxBidi : d3.conn.Spares d4.conn := writeLimit_spares d3 _ _ _ _ _ ⟨⟨rfl, rfl, rfl⟩, fun _ => rfl⟩
  have maxUni : d4.conn.Spares d5.conn := writeLimit_spares d4 _ _ _ _ _ ⟨⟨rfl, rfl, rfl⟩, fun _ => rfl⟩
  have datagrams : d5.conn.Spares d6.conn := writeDatagrams_spares _ d5
  have limits := ((done.trans responses).trans maxData).trans (maxBidi.trans maxUni)
  exact (limits.trans datagrams).trans (writeStreamFrames_spares d6)

variable (level : QUICLevel)

theorem writeCrypto_spares : d.conn.Spares (d.writeCrypto level).conn := by
  unfold writeCrypto
  extract_lets stream stretch offset length overhead length'
  split
  · exact .refl _
  split
  · exact .refl _
  split
  · exact .refl _
  · exact ⟨⟨rfl, rfl, rfl⟩, fun _ => rfl⟩

theorem writePing_spares : d.conn.Spares d.writePing.conn := by
  unfold writePing
  split_ifs <;> exact ⟨⟨rfl, rfl, rfl⟩, fun _ => rfl⟩

theorem fill_spares (ackOnly : Bool) : d.conn.Spares (d.fill level ackOnly).conn := by
  unfold fill
  split_ifs
  · exact .refl _
  · exact (d.writeApplicationFrames_spares.trans (writeCrypto_spares _ level)).trans (writePing_spares _)
  · exact (writeCrypto_spares d level).trans (writePing_spares _)

theorem writeAck_drafts (nowMs : Nat) : d.conn.Drafts (d.writeAck level nowMs).1.conn := by
  unfold writeAck
  extract_lets space scratch
  split_ifs
  · refine ⟨⟨Drifts.effect ?_, rfl, rfl, fun other => ?_⟩, fun _ => rfl⟩
    · apply note d.conn.transit level { space with
        ackPending := false, ackElicitingPending := false, ackDeadlineMs := 0 }
        ⟨rfl, rfl, rfl, rfl, rfl, rfl⟩
      intro owes
      simp [QUICPacketSpace.OwesAck] at owes
    · show QUICPacketSpace.SendsLike ((d.conn.spaces.set level _).get other) _
      rw [PerLevel.get_set]
      split_ifs with here
      · subst here
        exact ⟨rfl, rfl, rfl, rfl, rfl, rfl⟩
      · exact .refl _
  · exact .refl _
  · exact .refl _

end Draft

namespace QUICConnection

variable {c c' c'' : QUICConnection}

theorem LaysOut.packetNumberLength (laid : c.LaysOut c') (level : QUICLevel) :
    c'.packetNumberLength level = c.packetNumberLength level := by
  unfold QUICConnection.packetNumberLength
  rw [(laid.spaces level).next, (laid.spaces level).largest]

theorem LaysOut.keys (laid : c.LaysOut c') : c'.keys = c.keys := congrArg CryptoState.keys laid.crypto

/-- A packet that is laid out has the next number of its level, whose keys can send. -/
structure Numbered (c : QUICConnection) (packet : PlannedPacket) : Prop where
  number : packet.packetNumber = (c.spaces.get packet.level).nextPacketNumber
  keys : (c.keys.get packet.level).send.isValid = true

theorem Numbered.back {packet : PlannedPacket} (laid : c.LaysOut c') (numbered : c'.Numbered packet) :
    c.Numbered packet where
  number := numbered.number.trans (laid.spaces packet.level).next
  keys := laid.keys ▸ numbered.keys

theorem Numbered.forth {packet : PlannedPacket} (laid : c.LaysOut c') (numbered : c.Numbered packet) :
    c'.Numbered packet where
  number := numbered.number.trans (laid.spaces packet.level).next.symm
  keys := laid.keys.symm ▸ numbered.keys

theorem buildPacket_drafts (c : QUICConnection) (level : QUICLevel) (start limit : Nat)
    (ackOnly : Bool) (nowMs : Nat) : c.Drafts (c.buildPacket level start limit ackOnly nowMs).1 ∧
      ∀ packet, (c.buildPacket level start limit ackOnly nowMs).2 = some packet →
        packet.level = level ∧ packet.packetNumber = (c.spaces.get level).nextPacketNumber ∧
          packet.pnLength = c.packetNumberLength level := by
  unfold buildPacket
  extract_lets bodyLimit pnLength header pnOffset writer
  split
  · exact ⟨.refl c, by simp⟩
  split
  · exact ⟨.refl c, by simp⟩
  have acked := Draft.writeAck_drafts { conn := c, writer := writer } level nowMs
  split
  next d largestAcked done =>
    rw [done] at acked
    extract_lets d1 payloadLength
    have filled : c.Drafts d1.conn := acked.trans (d.fill_spares level ackOnly).drafts
    split
    · exact ⟨filled, by simp⟩
    refine ⟨filled, fun packet same => ?_⟩
    simp only [Option.some.injEq] at same
    subst same
    exact ⟨rfl, rfl, rfl⟩

theorem planPackets_drafts (limit : Nat) (ackOnly : Bool) (nowMs : Nat) (levels : List QUICLevel)
    (c : QUICConnection) (offset : Nat) :
    c.Drafts (planPackets limit ackOnly nowMs levels c offset).1 ∧
      ((planPackets limit ackOnly nowMs levels c offset).2.map PlannedPacket.level).Sublist levels ∧
      ∀ packet ∈ (planPackets limit ackOnly nowMs levels c offset).2,
        c.Numbered packet ∧ packet.pnLength = c.packetNumberLength packet.level := by
  induction levels generalizing c offset with
  | nil => exact ⟨.refl c, List.Sublist.refl _, fun packet member => by cases member⟩
  | cons level rest ih =>
    rw [planPackets_cons]
    split_ifs with may
    · obtain ⟨laid, order, each⟩ := ih c offset
      exact ⟨laid, order.trans (List.sublist_cons_self _ _), each⟩
    have valid : (c.keys.get level).send.isValid = true := by
      simp only [maySend, Bool.not_eq_true', Bool.and_eq_false_iff, not_or, Bool.not_eq_false] at may
      exact may.1
    obtain ⟨built, planned⟩ := buildPacket_drafts c level offset limit ackOnly nowMs
    have later : ∀ (c1 : QUICConnection), c.LaysOut c1 → ∀ packet : PlannedPacket,
        c1.Numbered packet ∧ packet.pnLength = c1.packetNumberLength packet.level →
          c.Numbered packet ∧ packet.pnLength = c.packetNumberLength packet.level := by
      intro c1 laid packet numbered
      exact ⟨numbered.1.back laid, numbered.2.trans (laid.packetNumberLength packet.level)⟩
    split
    next c1 nothing =>
      rw [nothing] at built
      obtain ⟨laid, order, each⟩ := ih c1 offset
      exact ⟨built.trans laid, order.trans (List.sublist_cons_self _ _),
        fun packet member => later c1 built.toLaysOut packet (each packet member)⟩
    next c1 packet done =>
      rw [done] at built planned
      obtain ⟨laid, order, each⟩ := ih c1 packet.end
      obtain ⟨named, number, pnLength⟩ := planned packet rfl
      refine ⟨built.trans laid, ?_, fun other member => ?_⟩
      · show (packet.level :: _).Sublist (level :: rest)
        rw [named]
        exact order.cons_cons level
      · rcases List.mem_cons.mp member with rfl | behind
        · exact ⟨⟨named ▸ number, named ▸ valid⟩, named ▸ pnLength⟩
        · exact later c1 built.toLaysOut other (each other behind)

theorem drifts_releaseAck (nowMs : Nat) (c : QUICConnection) (level : QUICLevel) :
    Drifts c (releaseAck nowMs c level) := by
  unfold releaseAck
  extract_lets space
  split_ifs with due
  · apply Drifts.effect
    apply note c.transit level { space with ackDeadlineMs := 0, ackPending := true } ⟨rfl, rfl, rfl, rfl, rfl, rfl⟩
    intro _
    exact .inr due.1
  · exact .refl c

theorem drifts_expireLoss (nowMs : Nat) (c : QUICConnection) (expired : Bool) (level : QUICLevel) :
    Drifts c (expireLoss nowMs (c, expired) level).1 := by
  unfold expireLoss
  extract_lets current space
  split_ifs with due
  · have effect := expire c.transit level nowMs due.1
    split
    next lost after recovery done =>
      extract_lets c1
      have settled : Drifts c c1 := by
        apply Drifts.effect
        have same : c1.transit = c.transit.settle level (after, recovery) := by
          unfold transit Transit.settle
          simp only [c1]
          rw [show lost.map (Mark.lost level) ++ current.history =
            ([] : List QUICSentPacket).map (Mark.acked level) ++ lost.map (Mark.lost level) ++
              current.history from rfl, filter_settled]
        rw [same]
        show Transit.Effect c.transit (c.transit.settle level (lost, after, recovery).2)
        rw [← done]
        exact effect
      have each : Still c1 (lost.foldl (fun c packet => c.onPacketLostPublic packet level) c1) :=
        still_overlooks.foldl _ (fun c packet => still_overlooks.onPacketLostPublic c packet level) _ c1
      exact settled.trans each.drifts
  · exact .refl c

theorem drifts_expires (nowMs : Nat) : Expires nowMs Drifts where
  refl := Drifts.refl
  trans := Drifts.trans
  drained _ _ := Still.drifts rfl
  idled _ _ := Still.drifts rfl
  released := drifts_releaseAck nowMs
  lost := drifts_expireLoss nowMs
  counted c := Drifts.effect (.recover c.transit _ rfl rfl)
  resent c resent level := by
    unfold resendCrypto
    extract_lets current stream
    split_ifs <;> exact Still.drifts rfl
  pinged _ := Still.drifts rfl

end QUICConnection

end AvianCore.Quic
