import AvianCore.Quic.Ledger

/-!
The ledger of a connection, and the effects of the operations that frames, timers and the
application share.
-/

namespace AvianCore.Quic
open AvianCore.Lib List Ledger.Effect

def QUICEvent.isClosed (event : QUICEvent) : Bool := event.kind == .closed

namespace QUICConnection

/-- The ledger of a connection, of whose `closed` events `handed` were taken away before. -/
def ledger (c : QUICConnection) (handed : Nat) : Ledger where
  flow := c.toFlow
  status := c.status
  closes := handed + c.events.countP QUICEvent.isClosed
  history := c.history
  acks := c.spaces.map QUICPacketSpace.acks
  outstanding := c.spaces.map QUICPacketSpace.unsettled
  receivable := c.keys.map fun pair => pair.receive.isValid
  awaiting := c.tls.state == .waitingClientHello
  pending := c.tls.pendingSecrets.map Secrets.level
  complete := c.handshakeComplete
  offered := c.tls.peerParameters
  amplification := c.toAntiAmplification

variable (c : QUICConnection) (handed : Nat) (level : QUICLevel)

theorem ledger_acks : (c.ledger handed).acks.get level = (c.spaces.get level).acks := PerLevel.get_map _ _ _

theorem ledger_outstanding : (c.ledger handed).outstanding.get level = (c.spaces.get level).unsettled :=
  PerLevel.get_map _ _ _

theorem ledger_receivable : (c.ledger handed).receivable.get level = (c.keys.get level).receive.isValid :=
  PerLevel.get_map _ _ _

def Moves (c c' : QUICConnection) : Prop := ∀ handed, Ledger.effects.Chain (c.ledger handed) (c'.ledger handed)

variable {c' c'' : QUICConnection}

theorem Moves.refl : Moves c c := fun _ => Logged.Chain.refl _

theorem Moves.trans {c : QUICConnection} (first : Moves c c') (second : Moves c' c'') : Moves c c'' :=
  fun handed => (first handed).trans (second handed)

theorem Moves.silent {c : QUICConnection} (same : ∀ handed, c'.ledger handed = c.ledger handed) : Moves c c' := by
  intro handed
  rw [same]
  exact Logged.Chain.refl _

theorem Moves.effect {c : QUICConnection} (effect : ∀ handed, Ledger.Effect (c.ledger handed) (c'.ledger handed)) :
    Moves c c' :=
  fun handed => Logged.Chain.single (effect handed)

theorem Moves.history {c : QUICConnection} (moves : Moves c c') : c.history <:+ c'.history := (moves 0).grows

theorem moves_foldl {α : Type} (act : QUICConnection → α → QUICConnection) (marks : List Mark)
    (items : List α) (each : ∀ c, marks ⊆ c.history → ∀ item ∈ items, Moves c (act c item))
    (c : QUICConnection) (logged : marks ⊆ c.history) : Moves c (items.foldl act c) := by
  induction items generalizing c with
  | nil => exact .refl c
  | cons item rest ih =>
    have first := each c logged item mem_cons_self
    have later := ih (fun c logged later member => each c logged later (mem_cons_of_mem _ member))
      (act c item) (List.Subset.trans logged first.history.subset)
    exact first.trans later

theorem ledger_append (event : QUICEvent) (handed : Nat) (other : event.isClosed = false) :
    (c.append event).ledger handed = c.ledger handed := by
  simp [ledger, append, countP_append, other]

theorem moves_append (event : QUICEvent) (other : event.isClosed = false) : Moves c (c.append event) :=
  Moves.silent fun handed => ledger_append c event handed other

theorem ledger_noteWritable (id handed : Nat) : (c.noteWritable id).ledger handed = c.ledger handed := by
  unfold noteWritable
  split_ifs
  · rfl
  · exact ledger_append _ _ _ rfl

variable (packet : QUICSentPacket) (level : QUICLevel) (id : Nat)

theorem moves_noteWritable : Moves c (c.noteWritable id) := Moves.silent (ledger_noteWritable c id)

theorem moves_close (code : Nat) (application : Bool) (reason : Bytes) : Moves c (c.close code application reason) := by
  unfold close
  split_ifs with closing
  · exact .refl c
  apply Moves.effect
  intro handed
  have effect := Ledger.Effect.close (c.ledger handed) closing
  simpa [ledger, append, countP_append, QUICEvent.isClosed, ← add_assoc] using effect

theorem moves_fail (error : QUICError) : Moves c (c.fail error) := moves_close c error.rawValue false []

theorem close_isClosing (code : Nat) (application : Bool) (reason : Bytes) :
    (c.close code application reason).status.isClosing := by
  unfold close
  split_ifs with closing
  · exact closing
  · rfl

theorem ledger_markWritable (id handed : Nat) :
    (c.markWritable id).ledger handed = { c.ledger handed with flow := c.toFlow.markWritable id } := by
  unfold markWritable Flow.markWritable
  split_ifs <;> rfl

theorem moves_markWritable : Moves c (c.markWritable id) := by
  apply Moves.effect
  intro handed
  rw [ledger_markWritable]
  exact Ledger.Effect.markWritable (c.ledger handed) id

variable (change : QUICStream → QUICStream)

theorem modifyStream_dead (dead : c.streams.lookup id = none) : c.modifyStream id change = c := by
  unfold modifyStream
  rw [Table.modify_absent _ _ _ dead]

variable (s : QUICStream)

theorem ledger_modifyStream (live : c.streams.lookup id = some s) (handed : Nat) :
    (c.modifyStream id change).ledger handed = { c.ledger handed with flow := c.toFlow.put id (change s) } := by
  have same := Table.modify_const c.streams id change s live
  simp only [modifyStream, ledger, Flow.put, same]

theorem moves_modify (live : c.streams.lookup id = some s) (step : StreamStep c.history id false s (change s)) :
    Moves c (c.modifyStream id change) := by
  apply Moves.effect
  intro handed
  rw [ledger_modifyStream c id change s live]
  exact stream (c.ledger handed) id s (change s) false live step

theorem moves_modify_mark (live : c.streams.lookup id = some s) (step : StreamStep c.history id true s (change s)) :
    Moves c ((c.modifyStream id change).markWritable id) := by
  apply Moves.effect
  intro handed
  have flow : (c.modifyStream id change).toFlow = c.toFlow.put id (change s) :=
    congrArg Ledger.flow (ledger_modifyStream c id change s live handed)
  rw [ledger_markWritable, flow, ledger_modifyStream c id change s live]
  exact stream (c.ledger handed) id s (change s) true live step

theorem moves_modify_mark_any (step : ∀ s, StreamStep c.history id true s (change s)) :
    Moves c ((c.modifyStream id change).markWritable id) := by
  cases live : c.streams.lookup id with
  | none =>
    rw [modifyStream_dead c id change live]
    exact moves_markWritable c id
  | some s => exact moves_modify_mark c id change s live (step s)

theorem moves_quiet (step : ∀ s, StreamStep c.history id false s (change s)) : Moves c (c.modifyStream id change) := by
  cases live : c.streams.lookup id with
  | none =>
    rw [modifyStream_dead c id change live]
    exact .refl c
  | some s => exact moves_modify c id change s live (step s)

theorem moves_retireStream : Moves c (c.retireStream id) := by
  unfold retireStream
  split
  · exact .refl c
  next s live =>
    apply Moves.effect
    intro handed
    have effect := retire (c.ledger handed) id s live
    simp only
    split_ifs <;> exact effect

theorem moves_retireIfFinished : Moves c (c.retireIfFinished id) := by
  unfold retireIfFinished
  split
  · exact .refl c
  split_ifs
  · exact moves_retireStream c id
  · exact .refl c

theorem moves_openStream (unidirectional : Bool) : Moves c (c.openStream unidirectional).2 := by
  unfold openStream
  extract_lets limit next id receiveLimit stream opened
  by_cases full : limit ≤ next
  · rw [if_pos full]
    exact .refl c
  rw [if_neg full]
  apply Moves.effect
  intro handed
  have effect := openLocal (c.ledger handed) unidirectional
  cases unidirectional <;> exact effect

theorem moves_releaseStream : Moves c (c.releaseStream id) := by
  have released := moves_quiet c id (fun s => { s with released := true }) fun s => .quiet s _ rfl rfl rfl rfl rfl rfl
  exact released.trans (moves_retireIfFinished _ id)

theorem moves_send (p : Bytes) (fin : Bool) : Moves c (c.send id p fin) := by
  unfold send
  split
  · exact .refl c
  next s live =>
    split_ifs
    · exact .refl c
    · exact moves_modify_mark c id _ s live (.write s p fin)

theorem moves_resetStream (id code : Nat) : Moves c (c.resetStream id code) := by
  unfold resetStream
  split
  · exact .refl c
  next s live =>
    split_ifs
    · exact .refl c
    · exact moves_modify_mark c id _ s live (.reset s code)

theorem moves_stopSending (id code : Nat) : Moves c (c.stopSending id code) := by
  unfold stopSending
  split
  · exact .refl c
  next s live =>
    split_ifs
    · exact .refl c
    · exact moves_modify_mark c id _ s live (.stop s code)

theorem moves_sendDatagram (p : Bytes) : Moves c (c.sendDatagram p).2 := by
  unfold sendDatagram
  split_ifs <;> exact .refl c

theorem moves_raiseCredit (limit : Nat) (raises : c.receiveLimit ≤ limit) :
    Moves c { c with receiveLimit := limit, maxDataPending := true } :=
  Moves.effect fun handed => raiseCredit (c.ledger handed) limit raises

theorem moves_extendStreamWindow (id consumed : Nat) : Moves c (c.extendStreamWindow id consumed) := by
  unfold extendStreamWindow
  split
  · exact .refl c
  next s live =>
    simp only
    have raised : Moves c (if s.receive.limit < consumed + c.config.initialMaxStreamData ∧
        c.config.initialMaxStreamData / 2 < consumed + c.config.initialMaxStreamData - s.receive.limit
      then (c.modifyStream id fun s => { s with receive := { s.receive with
        limit := consumed + c.config.initialMaxStreamData } }).markWritable id else c) := by
      split_ifs with low
      · exact moves_modify_mark c id _ s live (.extend s _ low.1.le)
      · exact .refl c
    apply raised.trans
    split_ifs with _ low
    all_goals first
      | exact .refl _
      | exact moves_raiseCredit _ _ (le_of_lt (And.left ‹_ ∧ _›))

theorem moves_consumeReady (id n : Nat) : Moves c (c.consumeReady id n) :=
  moves_quiet c id _ fun s => .quiet s _ rfl rfl rfl rfl rfl rfl

theorem moves_setDelivered : Moves c (c.setDelivered id) :=
  moves_quiet c id _ fun s => .quiet s _ rfl rfl rfl rfl rfl rfl

theorem moves_onStreamFrameAcked (packet : QUICSentPacket) (frame : SentStreamFrame)
    (settled : .acked level packet ∈ c.history) (carried : frame ∈ packet.frames.streams) :
    Moves c (c.onStreamFrameAcked frame) := by
  unfold onStreamFrameAcked
  split
  · exact .refl c
  next s live =>
    extract_lets acknowledged send c1 c2
    have acked : Moves c c1 := moves_modify c frame.id (fun s => { s with send := send }) s live
      (.acked s level packet frame settled carried rfl)
    have noted : Moves c1 c2 := by
      simp only [c2]
      split_ifs
      · exact moves_noteWritable _ _
      · exact .refl _
    exact (acked.trans noted).trans (moves_retireIfFinished _ _)

theorem moves_onPacketAcked (settled : .acked level packet ∈ c.history) : Moves c (c.onPacketAcked packet level) := by
  unfold onPacketAcked
  extract_lets frames c1 c2 c3 c4
  have crypto : ∀ handed, c1.ledger handed = c.ledger handed := by
    intro handed
    simp only [c1]
    split <;> rfl
  have logged : [Mark.acked level packet] ⊆ c1.history := by
    have same : c1.history = c.history := congrArg Ledger.history (crypto 0)
    simpa [same] using settled
  have streams : Moves c1 c2 := moves_foldl _ [.acked level packet] _ (fun c logged frame member =>
      moves_onStreamFrameAcked c level packet frame (logged mem_cons_self) member) c1 logged
  have resets : Moves c2 c3 := moves_foldl _ [] _ (fun c _ id _ => moves_retireIfFinished c id) c2 (nil_subset _)
  have stops : Moves c3 c4 := moves_foldl _ [] _ (fun c _ id _ => moves_retireIfFinished c id) c3 (nil_subset _)
  have last : Moves c4 (if frames.handshakeDone then { c4 with handshakeDonePending := false } else c4) := by
    split_ifs
    · exact Moves.silent fun _ => rfl
    · exact .refl _
  exact ((((Moves.silent crypto).trans streams).trans resets).trans stops).trans last

theorem moves_onStreamFrameLost (packet : QUICSentPacket) (frame : SentStreamFrame)
    (settled : .lost level packet ∈ c.history) (carried : frame ∈ packet.frames.streams) :
    Moves c (c.onStreamFrameLost frame) := by
  unfold onStreamFrameLost
  split
  · exact .refl c
  next s live => exact moves_modify_mark c frame.id _ s live (.lost s level packet frame settled carried rfl)

theorem moves_onFramesLost (settled : .lost level packet ∈ c.history) :
    Moves c (c.onFramesLost packet.frames level) := by
  unfold onFramesLost
  extract_lets c1 c2
  have crypto : ∀ handed, c1.ledger handed = c.ledger handed := by
    intro handed
    simp only [c1]
    split <;> rfl
  have logged : [Mark.lost level packet] ⊆ c1.history := by
    have same : c1.history = c.history := congrArg Ledger.history (crypto 0)
    simpa [same] using settled
  have streams : Moves c1 c2 := moves_foldl _ [.lost level packet] _ (fun c logged frame member =>
      moves_onStreamFrameLost c level packet frame (logged mem_cons_self) member) c1 logged
  exact ((Moves.silent crypto).trans streams).trans (Moves.silent fun _ => rfl)

theorem moves_onTailLost (frames : QUICSentFrames) : Moves c (c.onTailLost frames) := by
  unfold onTailLost
  extract_lets c1 c2
  have resets : Moves c c1 := moves_foldl _ [] _
    (fun c _ id _ => moves_modify_mark_any c id _ fun s => .resetLost s) c (nil_subset _)
  have stops : Moves c1 c2 := moves_foldl _ [] _
    (fun c _ id _ => moves_modify_mark_any c id _ fun s => .stopLost s) c1 (nil_subset _)
  apply (resets.trans stops).trans
  split
  · exact Moves.silent fun _ => rfl
  · exact .refl _

theorem moves_onPacketLost (settled : .lost level packet ∈ c.history) : Moves c (c.onPacketLost packet level) := by
  have limits := moves_foldl markWritable [] packet.frames.maxStreamData
    (fun c _ id _ => moves_markWritable c id) (c.onFramesLost packet.frames level)
    (nil_subset _)
  exact ((moves_onFramesLost c packet level settled).trans limits).trans (moves_onTailLost _ _)

theorem moves_onPacketLostPublic (settled : .lost level packet ∈ c.history) :
    Moves c (c.onPacketLostPublic packet level) := by
  have limits := moves_foldl onMaxStreamDataLost [] packet.frames.maxStreamData
    (fun c _ id _ => moves_modify_mark_any c id _ fun s => .limitLost s)
    (c.onFramesLost packet.frames level) (nil_subset _)
  exact ((moves_onFramesLost c packet level settled).trans limits).trans (moves_onTailLost _ _)

/-- A relation to a later connection that overlooks what is written to streams and queued to be sent. -/
structure Overlooks (R : QUICConnection → QUICConnection → Prop) : Prop where
  refl : ∀ c, R c c
  trans : ∀ {c c' c''}, R c c' → R c' c'' → R c c''
  mark : ∀ c id, R c (c.markWritable id)
  write : ∀ c id change, R c ((c.modifyStream id change).markWritable id)
  queue : ∀ c crypto done data bidi uni responses datagrams limit, R c { c with
    cryptoSend := crypto, handshakeDonePending := done, maxDataPending := data, maxStreamsBidiPending := bidi
    maxStreamsUniPending := uni, pathResponsePending := responses, outgoingDatagrams := datagrams
    receiveLimit := limit }

namespace Overlooks
variable {R : QUICConnection → QUICConnection → Prop} (o : Overlooks R)
include o

theorem foldl {α : Type} (act : QUICConnection → α → QUICConnection) (each : ∀ c item, R c (act c item))
    (items : List α) (c : QUICConnection) : R c (items.foldl act c) := by
  induction items generalizing c with
  | nil => exact o.refl c
  | cons item rest ih => exact o.trans (each c item) (ih (act c item))

variable (c : QUICConnection)

theorem send (id : Nat) (p : Bytes) (fin : Bool) : R c (c.send id p fin) := by
  unfold QUICConnection.send
  split
  · exact o.refl c
  split_ifs
  · exact o.refl c
  · exact o.write c id _

theorem resetStream (id code : Nat) : R c (c.resetStream id code) := by
  unfold QUICConnection.resetStream
  split
  · exact o.refl c
  split_ifs
  · exact o.refl c
  · exact o.write c id _

theorem stopSending (id code : Nat) : R c (c.stopSending id code) := by
  unfold QUICConnection.stopSending
  split
  · exact o.refl c
  split_ifs
  · exact o.refl c
  · exact o.write c id _

theorem sendDatagram (p : Bytes) : R c (c.sendDatagram p).2 := by
  unfold QUICConnection.sendDatagram
  split_ifs
  · exact o.refl c
  · exact o.refl c
  · exact o.queue c _ _ _ _ _ _ _ _

theorem extendStreamWindow (id consumed : Nat) : R c (c.extendStreamWindow id consumed) := by
  unfold QUICConnection.extendStreamWindow
  split
  · exact o.refl c
  next stream _ =>
    extract_lets limit granted c1 connectionGranted
    have raised : R c c1 := by
      simp only [c1]
      split_ifs
      · exact o.write c id _
      · exact o.refl c
    split_ifs
    · exact o.trans raised (o.queue c1 _ _ _ _ _ _ _ _)
    · exact raised

theorem onStreamFrameLost (frame : SentStreamFrame) : R c (c.onStreamFrameLost frame) := by
  unfold QUICConnection.onStreamFrameLost
  split
  · exact o.refl c
  · exact o.write c frame.id _

theorem onFramesLost (frames : QUICSentFrames) (level : QUICLevel) : R c (c.onFramesLost frames level) := by
  unfold QUICConnection.onFramesLost
  extract_lets c1 c2
  have crypto : R c c1 := by
    simp only [c1]
    split
    · exact o.queue c _ _ _ _ _ _ _ _
    · exact o.refl c
  have streams : R c1 c2 := o.foldl _ o.onStreamFrameLost _ c1
  exact o.trans (o.trans crypto streams) (o.queue c2 _ _ _ _ _ _ _ _)

theorem onTailLost (frames : QUICSentFrames) : R c (c.onTailLost frames) := by
  unfold QUICConnection.onTailLost
  extract_lets c1 c2
  have resets : R c c1 := o.foldl _ (fun c id => o.write c id _) _ c
  have stops : R c1 c2 := o.foldl _ (fun c id => o.write c id _) _ c1
  split
  · exact o.trans (o.trans resets stops) (o.queue c2 _ _ _ _ _ _ _ _)
  · exact o.trans resets stops

theorem onPacketLost (packet : QUICSentPacket) (level : QUICLevel) : R c (c.onPacketLost packet level) := by
  unfold QUICConnection.onPacketLost
  extract_lets c1 c2
  have limits : R c1 c2 := o.foldl _ o.mark _ c1
  exact o.trans (o.trans (o.onFramesLost c packet.frames level) limits) (o.onTailLost c2 packet.frames)

theorem onPacketLostPublic (packet : QUICSentPacket) (level : QUICLevel) : R c (c.onPacketLostPublic packet level) := by
  unfold QUICConnection.onPacketLostPublic
  extract_lets c1 c2
  have limits : R c1 c2 := o.foldl _ (fun c id => o.write c id _) _ c1
  exact o.trans (o.trans (o.onFramesLost c packet.frames level) limits) (o.onTailLost c2 packet.frames)

end Overlooks

end QUICConnection
end AvianCore.Quic
