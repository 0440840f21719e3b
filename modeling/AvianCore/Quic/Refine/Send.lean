import AvianCore.Quic.Layout
import AvianCore.Quic.Refine.Streams

/-!
The effects of laying out and sealing a datagram. Every stream's turn at a packet is one
effect; the frames that are not about streams leave the ledger as it is.
-/

namespace AvianCore.Quic
open AvianCore.Lib List Carried
open QUICStream (owesStop owesLimit owesReset)

def SentGrows (streams streams' : Table Nat QUICStream) : Prop :=
  ∀ id s, streams.lookup id = some s → ∃ s', streams'.lookup id = some s' ∧ s.send.sent ≤ s'.send.sent

theorem SentGrows.refl (streams : Table Nat QUICStream) : SentGrows streams streams := fun _ s live => ⟨s, live, le_rfl⟩

theorem SentGrows.trans {a b c : Table Nat QUICStream} (first : SentGrows a b)
    (second : SentGrows b c) : SentGrows a c := by
  intro id s live
  obtain ⟨s', live', least⟩ := first id s live
  obtain ⟨s'', live'', most⟩ := second id s' live'
  exact ⟨s'', live'', least.trans most⟩

variable {id : Nat}

theorem SentGrows.modify {streams : Table Nat QUICStream} {s s' : QUICStream}
    (live : streams.lookup id = some s) (more : s.send.sent ≤ s'.send.sent) :
    SentGrows streams (streams.modify id fun _ => s') := by
  intro other t found
  by_cases same : other = id
  · subst same
    cases live.symm.trans found
    exact ⟨s', by rw [Table.lookup_modify_self, live]; rfl, more⟩
  · exact ⟨t, by rw [Table.lookup_modify_ne _ same, found], le_rfl⟩

theorem FramesSent.mono {streams streams' : Table Nat QUICStream} {frames : QUICSentFrames}
    (covered : FramesSent streams frames) (grows : SentGrows streams streams') :
    FramesSent streams' frames := by
  intro frame member
  obtain ⟨s, live, most⟩ := covered frame member
  obtain ⟨s', live', more⟩ := grows frame.id s live
  exact ⟨s', live', most.trans more⟩

variable (c : QUICConnection)

theorem QUICConnection.ledger_space (level : QUICLevel) (handed : Nat)
    (space : QUICPacketSpace) (acks : space.acks = (c.spaces.get level).acks)
    (unsettled : space.unsettled = (c.spaces.get level).unsettled) :
    ({ c with spaces := c.spaces.set level space } : QUICConnection).ledger handed = c.ledger handed := by
  have sameAcks : (c.spaces.set level space).map QUICPacketSpace.acks = c.spaces.map QUICPacketSpace.acks := by
    rw [PerLevel.map_set, acks, ← PerLevel.get_map c.spaces QUICPacketSpace.acks, PerLevel.set_get]
  have sameSent : (c.spaces.set level space).map QUICPacketSpace.unsettled =
      c.spaces.map QUICPacketSpace.unsettled := by
    rw [PerLevel.map_set, unsettled, ← PerLevel.get_map c.spaces QUICPacketSpace.unsettled, PerLevel.set_get]
  simp only [ledger, sameAcks, sameSent]

namespace Turn

/-- What a turn's control frames leave alone. -/
structure Steady (turn turn' : Turn) : Prop where
  send : turn'.stream.send = turn.stream.send
  receive : turn'.stream.receive = { turn.stream.receive with announced := turn'.stream.receive.announced }
  queued : turn'.stream.stopSendingQueued = turn.stream.stopSendingQueued
  conn : turn'.draft.conn = turn.draft.conn
  streams : turn'.draft.frames.streams = turn.draft.frames.streams

variable (turn : Turn)

theorem Steady.refl : Steady turn turn := ⟨rfl, rfl, rfl, rfl, rfl⟩

theorem Steady.trans {a b c : Turn} (first : Steady a b) (second : Steady b c) : Steady a c where
  send := second.send.trans first.send
  receive := by rw [second.receive, first.receive]
  queued := second.queued.trans first.queued
  conn := second.conn.trans first.conn
  streams := second.streams.trans first.streams

variable (id : Nat)

theorem writeStopSending_steady : Steady turn (turn.writeStopSending id) := by
  unfold writeStopSending
  split
  · exact Steady.refl turn
  split_ifs
  · exact Steady.refl turn
  · exact Steady.refl turn
  · exact ⟨rfl, rfl, rfl, rfl, rfl⟩

theorem writeMaxStreamData_steady : Steady turn (turn.writeMaxStreamData id) := by
  unfold writeMaxStreamData
  extract_lets limit
  split_ifs
  · exact Steady.refl turn
  · exact Steady.refl turn
  · exact ⟨rfl, rfl, rfl, rfl, rfl⟩

theorem writeStopSending_announced :
    (turn.writeStopSending id).stream.receive.announced = turn.stream.receive.announced := by
  unfold writeStopSending
  split
  · rfl
  · split_ifs <;> rfl

theorem writeStopSending_fits (fits : (turn.stream.stopSize id : Int) ≤ turn.room) :
    (turn.writeStopSending id).stream.owesStop = false ∧
      (turn.writeStopSending id).room = turn.room - turn.stream.stopSize id := by
  unfold QUICStream.stopSize at fits ⊢
  unfold writeStopSending
  cases queued : turn.stream.stopSendingQueued with
  | none => simp [owesStop, queued]
  | some code =>
    by_cases sent : turn.stream.stopSendingSent
    · simp [owesStop, queued, sent]
    have due : turn.stream.owesStop = true := by simp [owesStop, queued, sent]
    rw [if_pos due, queued, Option.getD_some] at fits
    have long : ¬turn.room < 1 + quicVarintLength id + quicVarintLength code := by
      push_cast at fits
      omega
    rw [if_pos due, Option.getD_some]
    simp only [if_neg sent, if_neg long]
    refine ⟨by simp [owesStop], ?_⟩
    simp only [Turn.room, QUICFrameWriter.room, QUICFrameWriter.varint_limit,
      QUICFrameWriter.varint_offset, QUICFrameWriter.type_limit,
      QUICFrameWriter.type_offset _ .stopSending (by decide)]
    push_cast
    omega

theorem writeMaxStreamData_fits (fits : (turn.stream.limitSize id : Int) ≤ turn.room) :
    (turn.writeMaxStreamData id).stream.owesLimit = false := by
  unfold QUICStream.limitSize at fits
  by_cases known : turn.stream.receive.limit ≤ turn.stream.receive.announced
  · simp [writeMaxStreamData, known, owesLimit]
  have due : turn.stream.owesLimit = true := by simpa [owesLimit] using known
  rw [if_pos due] at fits
  have long : ¬turn.room < 1 + quicVarintLength id + quicVarintLength turn.stream.receive.limit := by
    push_cast at fits
    omega
  simp [writeMaxStreamData, known, long, owesLimit]

theorem writeReset_fits (id code : Nat) (due : turn.stream.owesReset = true)
    (named : turn.stream.send.resetCode = some code) (fits : (turn.stream.resetSize id : Int) ≤ turn.room) :
    (turn.writeReset id code).stream.owesReset = false := by
  unfold QUICStream.resetSize at fits
  rw [if_pos due, named, Option.getD_some] at fits
  have long : ¬turn.room < 1 + quicVarintLength id + quicVarintLength code
      + quicVarintLength turn.stream.send.written := by
    push_cast at fits
    omega
  simp [writeReset, long, owesReset]

theorem writeReset_cases (id code : Nat) : turn.writeReset id code = turn ∨ ((turn.writeReset id code).stream =
        { turn.stream with send := { turn.stream.send with resetSent := true } } ∧
      (turn.writeReset id code).draft.conn =
        turn.draft.conn.mark (.resetWritten id turn.stream turn.stream.send.written)) := by
  unfold writeReset
  extract_lets final
  split_ifs
  · exact .inl rfl
  · exact .inr ⟨rfl, rfl⟩

theorem writeReset_streams (id code : Nat) :
    (turn.writeReset id code).draft.frames.streams = turn.draft.frames.streams := by
  unfold writeReset
  extract_lets final
  split_ifs <;> rfl

theorem allowed_fresh {send : QUICSendStream} {connectionRoom available : Nat} (none : send.lost.ranges = [])
    (may : allowed send connectionRoom (nextStretch send) = some available) :
    available ≤ send.written - send.sent ∧ available ≤ send.window ∧ available ≤ connectionRoom := by
  have stretch : nextStretch send = ⟨send.sent, send.written - send.sent, false⟩ := by simp [nextStretch, none]
  rw [stretch] at may
  unfold allowed at may
  simp only [Bool.false_eq_true, if_false] at may
  split_ifs at may
  cases may
  refine ⟨min_le_left _ _, ?_, ?_⟩
  · exact (min_le_right _ _).trans (min_le_left _ _)
  · exact (min_le_right _ _).trans (min_le_right _ _)

theorem allowed_again {send : QUICSendStream} {connectionRoom available : Nat} {range : ByteRange}
    {rest : List ByteRange} (first : send.lost.ranges = range :: rest)
    (may : allowed send connectionRoom (nextStretch send) = some available) :
    available = range.high - range.low ∧ range.low < range.high := by
  have stretch : nextStretch send = ⟨range.low, range.high - range.low, true⟩ := by simp [nextStretch, first]
  rw [stretch] at may
  unfold allowed at may
  simp only [Bool.true_or, and_true, if_true] at may
  split_ifs at may with empty
  cases may
  exact ⟨rfl, by omega⟩

/-- What a turn does to the send buffer, to the connection's count and to the packet. -/
structure Wrote (turn turn' : Turn) (id : Nat) (sentBytes : Nat) : Prop where
  carried : Carried turn.draft.conn.toFlow turn.stream.send turn'.stream.send sentBytes
  stream : turn'.stream = { turn.stream with send := turn'.stream.send }
  conn : turn'.draft.conn = { turn.draft.conn with sentBytes := sentBytes }
  grows : turn.stream.send.sent ≤ turn'.stream.send.sent
  resets : turn'.stream.owesReset = turn.stream.owesReset
  frames : ∀ frame ∈ turn'.draft.frames.streams, frame ∈ turn.draft.frames.streams ∨
    (frame.id = id ∧ frame.high ≤ turn'.stream.send.sent)

theorem recordStream_wrote (writer : QUICFrameWriter) (id available length : Nat) (fin : Bool)
    (chosen : Chosen turn id available length fin) :
    ∃ sentBytes, Wrote turn (({ turn with draft := { turn.draft with writer := writer } } : Turn).recordStream id
        (nextStretch turn.stream.send).offset length fin
        (nextStretch turn.stream.send).isRetransmit) id sentBytes := by
  have added : ∀ frame ∈ turn.draft.frames.streams ++ [(⟨id, (nextStretch turn.stream.send).offset,
      (nextStretch turn.stream.send).offset + length, fin⟩ : SentStreamFrame)],
      frame ∈ turn.draft.frames.streams ∨ (frame.id = id ∧ frame.high ≤
        max turn.stream.send.sent ((nextStretch turn.stream.send).offset + length)) := by
    intro frame member
    rcases mem_append.mp member with old | new
    · exact .inl old
    · rw [mem_singleton.mp new]
      exact .inr ⟨rfl, le_max_right _ _⟩
  have grows := le_max_left turn.stream.send.sent ((nextStretch turn.stream.send).offset + length)
  cases first : turn.stream.send.lost.ranges with
  | nil =>
    have stretch : nextStretch turn.stream.send =
        ⟨turn.stream.send.sent, turn.stream.send.written - turn.stream.send.sent, false⟩ := by
      simp [nextStretch, first]
    obtain ⟨queued, streamRoom, connectionRoom⟩ := allowed_fresh first chosen.allowed
    have carried := fresh (f := turn.draft.conn.toFlow) length fin
      (chosen.length.trans queued) (chosen.length.trans streamRoom)
      (chosen.length.trans connectionRoom)
    rw [stretch] at added grows ⊢
    exact ⟨_, carried, rfl, rfl, grows, rfl, added⟩
  | cons range rest =>
    have stretch : nextStretch turn.stream.send = ⟨range.low, range.high - range.low, true⟩ := by
      simp [nextStretch, first]
    have plain : fin = false := by
      cases fin with
      | false => rfl
      | true =>
        have fresh := chosen.fin rfl
        rw [stretch] at fresh
        cases fresh
    obtain ⟨whole, proper⟩ := allowed_again first chosen.allowed
    have carried := again (f := turn.draft.conn.toFlow) range rest length first proper (chosen.length.trans whole.le)
    rw [stretch] at added grows ⊢
    subst plain
    refine ⟨turn.draft.conn.sentBytes, ?_, rfl, rfl, grows, rfl, added⟩
    simpa [recordStream] using carried

theorem writeOneStream_wrote : ∃ sentBytes, Wrote turn (turn.writeOneStream id).1 id sentBytes := by
  have outcome := writeOneStream_cases turn id
  generalize turn.writeOneStream id = result at outcome
  have none : Carried turn.draft.conn.toFlow turn.stream.send turn.stream.send
      turn.draft.conn.sentBytes := nothing turn.stream.send.resetSent
  cases outcome with
  | nothing => exact ⟨_, none, rfl, rfl, le_rfl, rfl, fun _ member => Or.inl member⟩
  | broken available length fin chosen => exact ⟨_, none, rfl, rfl, le_rfl, rfl, fun _ member => Or.inl member⟩
  | frame available length fin data chosen => exact recordStream_wrote turn _ id available length fin chosen

/-- The draft after a turn that leaves the stream on the list or takes it off. -/
def finish (turn : Turn) (id : Nat) (stays : Bool) : Draft :=
  if stays then turn.commit id else (turn.commit id).unmark id

theorem finish_ledger (stays : Bool) (handed : Nat) :
    (turn.finish id stays).conn.ledger handed = { turn.draft.conn.ledger handed with
      flow := let f := turn.draft.conn.toFlow.put id turn.stream
        if stays then f else f.unmark id } := by
  unfold finish
  cases stays <;> rfl

end Turn

namespace Draft

/-- What laying out frames does to the connection and to what the packet carries. -/
structure Drafted (d d' : Draft) : Prop where
  moves : QUICConnection.Moves d.conn d'.conn
  amplification : d'.conn.toAntiAmplification = d.conn.toAntiAmplification
  complete : d'.conn.handshakeComplete = d.conn.handshakeComplete
  grows : SentGrows d.conn.streams d'.conn.streams
  frames : FramesSent d.conn.streams d.frames → FramesSent d'.conn.streams d'.frames

variable (d : Draft)

theorem Drafted.refl : Drafted d d := ⟨QUICConnection.Moves.refl _, rfl, rfl, SentGrows.refl _, id⟩

theorem Drafted.trans {a b c : Draft} (first : Drafted a b) (second : Drafted b c) : Drafted a c where
  moves := first.moves.trans second.moves
  amplification := second.amplification.trans first.amplification
  complete := second.complete.trans first.complete
  grows := first.grows.trans second.grows
  frames covered := second.frames (first.frames covered)

theorem Drafted.silent {d d' : Draft} (same : ∀ handed, d'.conn.ledger handed = d.conn.ledger handed)
    (streams : d'.frames.streams = d.frames.streams) : Drafted d d' := by
  have flow : d'.conn.toFlow = d.conn.toFlow := congrArg Ledger.flow (same 0)
  have table : d'.conn.streams = d.conn.streams := congrArg Flow.streams flow
  refine ⟨QUICConnection.Moves.silent same, congrArg Ledger.amplification (same 0),
    congrArg Ledger.complete (same 0), ?_, fun covered => ?_⟩
  · rw [table]
    exact .refl _
  · unfold FramesSent
    rw [table, streams]
    exact covered

def begin (d : Draft) (id : Nat) (s : QUICStream) : Turn :=
  ⟨{ d with conn := d.conn.mark (.turn id s d.writer.room) }, s⟩

/-- A turn also keeps the list, and takes the stream off the set unless it stays. -/
structure Served (d d' : Draft) (id : Nat) (stays : Bool) : Prop extends Drafted d d' where
  writable : d'.conn.writable = d.conn.writable
  marked : d'.conn.writableSet =
    if stays then d.conn.writableSet else d.conn.writableSet.erase id

variable {stays : Bool}

theorem served_finish {d : Draft} {s : QUICStream} {turn : Turn}
    {sentBytes : Nat} (marks : List Mark) (live : d.conn.streams.lookup id = some s)
    (conn : turn.draft.conn = { d.conn with
      sentBytes := sentBytes, history := marks ++ .turn id s d.writer.room :: d.conn.history })
    (effect : ∀ handed, Ledger.Effect (d.conn.ledger handed) ((turn.finish id stays).conn.ledger handed))
    (grows : s.send.sent ≤ turn.stream.send.sent)
    (frames : ∀ frame ∈ turn.draft.frames.streams, frame ∈ d.frames.streams ∨
      (frame.id = id ∧ frame.high ≤ turn.stream.send.sent)) :
    Served d (turn.finish id stays) id stays := by
  have streams : (turn.finish id stays).conn.streams = d.conn.streams.modify id fun _ => turn.stream := by
    unfold Turn.finish
    cases stays <;> simp [Turn.commit, unmark, QUICConnection.modifyStream, conn]
  have written : (turn.finish id stays).frames = turn.draft.frames := by
    unfold Turn.finish
    cases stays <;> rfl
  have table : SentGrows d.conn.streams (turn.finish id stays).conn.streams := by
    rw [streams]
    exact SentGrows.modify live grows
  refine ⟨⟨QUICConnection.Moves.effect effect, ?_, ?_, table, fun covered => ?_⟩, ?_, ?_⟩
  · have ledger := congrArg Ledger.amplification (Turn.finish_ledger turn id stays 0)
    exact ledger.trans (by rw [conn]; rfl)
  · have ledger := congrArg Ledger.complete (Turn.finish_ledger turn id stays 0)
    exact ledger.trans (by rw [conn]; rfl)
  · rw [written]
    intro frame member
    rcases frames frame member with old | ⟨named, most⟩
    · exact covered.mono table frame old
    refine ⟨turn.stream, ?_, most⟩
    rw [streams, named, Table.lookup_modify_self, live]
    rfl
  · unfold Turn.finish
    cases stays <;> simp [Turn.commit, unmark, QUICConnection.modifyStream, conn]
  · unfold Turn.finish
    cases stays <;> simp [Turn.commit, unmark, QUICConnection.modifyStream, conn]

theorem served_reset (id : Nat) (s : QUICStream) (code : Nat) (live : d.conn.streams.lookup id = some s)
    (complete : d.conn.handshakeComplete = true)
    (resets : (if s.send.resetSent then none else s.send.resetCode) = some code) :
    Served d ((((d.begin id s).writeStopSending id).writeReset id code).finish id false) id false := by
  have unsent : s.send.resetSent = false := by
    cases sent : s.send.resetSent with
    | false => rfl
    | true => simp [sent] at resets
  have named : s.send.resetCode = some code := by simpa [unsent] using resets
  have due : s.owesReset = true := by simp [owesReset, unsent, named]
  have steady := Turn.writeStopSending_steady (d.begin id s) id
  have announced := Turn.writeStopSending_announced (d.begin id s) id
  have stops := Turn.writeStopSending_fits (d.begin id s) id
  generalize (d.begin id s).writeStopSending id = stopped at steady announced stops
  have send : stopped.stream.send = s.send := steady.send
  have fits : TurnFits id s d.writer.room → (stopped.writeReset id code).stream.owesControl = false := by
    intro ⟨room, apart⟩
    push_cast at room
    obtain ⟨stopDone, left⟩ := stops (by
      change (s.stopSize id : Int) ≤ d.writer.room
      omega)
    have left' : stopped.room = d.writer.room - s.stopSize id := left
    have size : stopped.stream.resetSize id = s.resetSize id := by
      unfold QUICStream.resetSize owesReset
      rw [send]
    have still : stopped.stream.owesReset = true := by simpa only [owesReset, send] using due
    have resetDone := Turn.writeReset_fits stopped id code still (by rw [send, named]) (by omega)
    have limit : s.owesLimit = false := by
      cases owed : s.owesLimit with
      | false => rfl
      | true => exact absurd ⟨due, owed⟩ apart
    have receive : stopped.stream.receive = s.receive := by
      rw [steady.receive, announced]
      rfl
    have kept : (stopped.writeReset id code).stream.owesStop = false ∧
        (stopped.writeReset id code).stream.owesLimit = false := by
      have owed : stopped.stream.owesLimit = false := by simpa only [owesLimit, receive] using limit
      rcases Turn.writeReset_cases stopped id code with same | ⟨stream, _⟩
      · rw [same]
        exact ⟨stopDone, owed⟩
      · rw [stream]
        exact ⟨stopDone, owed⟩
    simp [QUICStream.owesControl, resetDone, kept.1, kept.2]
  have frames : ∀ frame ∈ (stopped.writeReset id code).draft.frames.streams, frame ∈ d.frames.streams ∨
        (frame.id = id ∧ frame.high ≤ (stopped.writeReset id code).stream.send.sent) := by
    intro frame member
    rw [Turn.writeReset_streams, steady.streams] at member
    exact .inl member
  have conn : stopped.draft.conn = d.conn.mark (.turn id s d.writer.room) := steady.conn
  rcases Turn.writeReset_cases stopped id code with same | ⟨stream, marked⟩
  · rw [same] at fits frames ⊢
    refine served_finish [] live conn (fun handed => ?_) (by rw [send]) frames
    have turned : Turned d.conn.toFlow id s stopped.stream d.writer.room d.conn.sentBytes false := by
      refine ⟨steady.receive, steady.queued, ?_, fun _ => ?_, fits⟩
      · rw [send]
        exact nothing s.send.resetSent
      · simp [QUICStream.owesData, send, named]
    rw [Turn.finish_ledger, conn]
    exact Ledger.Effect.turn (d.conn.ledger handed) id s stopped.stream d.writer.room
      d.conn.sentBytes false none live complete turned (fun t member => by cases member)
  · rw [conn] at marked
    refine served_finish [.resetWritten id stopped.stream stopped.stream.send.written] live
      marked (fun handed => ?_) (by rw [stream, send]) frames
    have turned : Turned d.conn.toFlow id s (stopped.writeReset id code).stream d.writer.room
        d.conn.sentBytes false := by
      refine ⟨?_, ?_, ?_, fun _ => ?_, fits⟩
      · rw [stream]
        exact steady.receive
      · rw [stream]
        exact steady.queued
      · rw [stream, send]
        exact nothing true
      · simp [QUICStream.owesData, stream, send, named]
    rw [Turn.finish_ledger, marked]
    exact Ledger.Effect.turn (d.conn.ledger handed) id s (stopped.writeReset id code).stream
      d.writer.room d.conn.sentBytes false (some stopped.stream) live complete turned
      (fun t member => by cases member; exact send)

theorem served_data (id : Nat) (s : QUICStream) (live : d.conn.streams.lookup id = some s)
    (complete : d.conn.handshakeComplete = true)
    (resets : (if s.send.resetSent then none else s.send.resetCode) = none) (turn : Turn)
    (served : turn = ((((d.begin id s).writeStopSending id).writeMaxStreamData id).writeOneStream id).1) :
    Served d (turn.finish id turn.stream.send.owes) id turn.stream.send.owes := by
  have unreset : s.owesReset = false := by
    unfold owesReset
    cases sent : s.send.resetSent with
    | true => simp
    | false => simpa [sent] using resets
  have stopSteady := Turn.writeStopSending_steady (d.begin id s) id
  have announced := Turn.writeStopSending_announced (d.begin id s) id
  have stops := Turn.writeStopSending_fits (d.begin id s) id
  generalize (d.begin id s).writeStopSending id = stopped at stopSteady announced stops served
  have limitSteady := Turn.writeMaxStreamData_steady stopped id
  have limits := Turn.writeMaxStreamData_fits stopped id
  have stopKept : (stopped.writeMaxStreamData id).stream.owesStop = stopped.stream.owesStop := by
    unfold Turn.writeMaxStreamData
    extract_lets limit
    split_ifs <;> rfl
  generalize stopped.writeMaxStreamData id = raised at limitSteady limits stopKept served
  have steady := stopSteady.trans limitSteady
  have send : raised.stream.send = s.send := steady.send
  have conn : raised.draft.conn = d.conn.mark (.turn id s d.writer.room) := steady.conn
  obtain ⟨sentBytes, wrote⟩ := Turn.writeOneStream_wrote raised id
  rw [← served] at wrote
  have carried : Carried d.conn.toFlow s.send turn.stream.send sentBytes := by
    have whole := wrote.carried
    rw [send, conn] at whole
    exact whole
  have resetDone : turn.stream.owesReset = false := by
    have same : raised.stream.owesReset = s.owesReset := by
      unfold owesReset
      rw [send]
    exact (wrote.resets.trans same).trans unreset
  have fits : TurnFits id s d.writer.room → turn.stream.owesControl = false := by
    intro ⟨room, _⟩
    push_cast at room
    obtain ⟨stopDone, left⟩ := stops (by
      change (s.stopSize id : Int) ≤ d.writer.room
      omega)
    have left' : stopped.room = d.writer.room - s.stopSize id := left
    have receive : stopped.stream.receive = s.receive := by
      rw [stopSteady.receive, announced]
      rfl
    have size : stopped.stream.limitSize id = s.limitSize id := by
      unfold QUICStream.limitSize owesLimit
      rw [receive]
    have limitDone := limits (by omega)
    have stopOwed : turn.stream.owesStop = false := by
      rw [wrote.stream]
      exact stopKept.trans stopDone
    have limitOwed : turn.stream.owesLimit = false := by
      rw [wrote.stream]
      exact limitDone
    simp [QUICStream.owesControl, stopOwed, limitOwed, resetDone]
  have whole : turn.draft.conn = { d.conn with
      sentBytes := sentBytes, history := [] ++ .turn id s d.writer.room :: d.conn.history } := by
    rw [wrote.conn, conn]
    rfl
  refine served_finish _ live whole (fun handed => ?_) (by rw [← send]; exact wrote.grows) ?_
  · have turned : Turned d.conn.toFlow id s turn.stream d.writer.room sentBytes
        turn.stream.send.owes := by
      refine ⟨?_, ?_, carried, fun left => by simp [QUICStream.owesData, left], fits⟩
      · rw [wrote.stream]
        exact steady.receive
      · rw [wrote.stream]
        exact steady.queued
    rw [Turn.finish_ledger, whole]
    exact Ledger.Effect.turn (d.conn.ledger handed) id s turn.stream d.writer.room sentBytes
      turn.stream.send.owes none live complete turned (fun t member => by cases member)
  · intro frame member
    rcases wrote.frames frame member with old | new
    · rw [steady.streams] at old
      exact .inl old
    · exact .inr new

/-- What the walk leaves: a stream that is still marked was not reached or goes to the back. -/
structure Walked (ids deferred : List Nat) (d : Draft) (result : Draft × List Nat × List Nat) :
    Prop where
  drafted : Drafted d result.1
  writable : result.1.conn.writable = d.conn.writable
  marked : result.1.conn.writableSet ⊆ d.conn.writableSet
  deferred : deferred ⊆ result.2.2
  kept : ∀ id ∈ ids, id ∈ result.1.conn.writableSet → id ∈ result.2.1 ∨ id ∈ result.2.2

theorem Walked.stop {d d' : Draft} (served : Served d d' id stays) (rest deferred : List Nat) :
    Walked (id :: rest) deferred d (d', rest, if stays then deferred ++ [id] else deferred) where
  drafted := served.toDrafted
  writable := served.writable
  marked := by
    rw [served.marked]
    split_ifs
    · exact Finset.Subset.refl _
    · exact Finset.erase_subset _ _
  deferred := by
    split_ifs
    · exact subset_append_left _ _
    · exact List.Subset.refl _
  kept := by
    intro other member marked
    rcases mem_cons.mp member with same | later
    · rw [served.marked, same] at marked
      cases stays with
      | true => simp [same]
      | false => simp at marked
    · exact .inl later

theorem Walked.cons {rest deferred : List Nat} {d d' : Draft}
    {result : Draft × List Nat × List Nat} (served : Served d d' id stays)
    (walked : Walked rest (if stays then deferred ++ [id] else deferred) d' result) :
    Walked (id :: rest) deferred d result where
  drafted := served.toDrafted.trans walked.drafted
  writable := walked.writable.trans served.writable
  marked := walked.marked.trans (Walked.stop served rest deferred).marked
  deferred := List.Subset.trans (Walked.stop served rest deferred).deferred walked.deferred
  kept := by
    intro other member marked
    rcases mem_cons.mp member with same | later
    · cases stays with
      | true =>
        refine .inr (walked.deferred ?_)
        simp [same]
      | false =>
        have gone := walked.marked marked
        rw [served.marked, same] at gone
        simp at gone
    · exact walked.kept other later marked

theorem streamWalk_walked (ids : List Nat) (d : Draft) (deferred : List Nat)
    (complete : d.conn.handshakeComplete = true) :
    Walked ids deferred d (streamWalk ids d deferred) := by
  induction ids generalizing d deferred with
  | nil => exact ⟨Drafted.refl d, rfl, Finset.Subset.refl _, List.Subset.refl _, fun _ => nofun⟩
  | cons id rest ih =>
    unfold streamWalk
    split
    · exact ⟨Drafted.refl d, rfl, Finset.Subset.refl _, List.Subset.refl _, fun _ member _ => Or.inl member⟩
    split
    next dead =>
      have moves : QUICConnection.Moves d.conn (d.unmark id).conn := QUICConnection.Moves.effect fun handed =>
          Ledger.Effect.unmark (d.conn.ledger handed) id dead
      have served : Served d (d.unmark id) id false :=
        ⟨⟨moves, rfl, rfl, SentGrows.refl _, fun covered => covered⟩, rfl, by simp [unmark]⟩
      exact Walked.cons served (ih (d.unmark id) deferred complete)
    next s live =>
      extract_lets d1 turn
      split
      next code resets =>
        have served := served_reset d id s code live complete resets
        exact Walked.cons served (ih _ deferred (served.complete.trans complete))
      next resets =>
        split
        next turn' wrote done =>
          have served := served_data d id s live complete resets turn' (congrArg Prod.fst done).symm
          extract_lets d2 d3
          unfold Turn.finish at served
          split_ifs with owes full full
          all_goals simp only [owes, if_true, Bool.false_eq_true, if_false] at served
          · exact Walked.stop served _ _
          · exact Walked.cons served (ih d2 (deferred ++ [id]) (served.complete.trans complete))
          · exact Walked.stop served _ _
          · exact Walked.cons served (ih d3 deferred (served.complete.trans complete))

theorem writeStreamFrames_drafted (complete : d.conn.handshakeComplete = true) : Drafted d d.writeStreamFrames := by
  have walked := streamWalk_walked d.conn.writable d [] complete
  unfold writeStreamFrames
  split
  next d1 unreached deferred done =>
    rw [done] at walked
    refine walked.drafted.trans ⟨QUICConnection.Moves.effect fun handed => ?_, rfl, rfl,
      SentGrows.refl _, fun covered => covered⟩
    apply Ledger.Effect.requeue (d1.conn.ledger handed) _
    intro id marked listed
    have listed' : id ∈ d.conn.writable := by
      rw [← walked.writable]
      exact listed
    rcases walked.kept id listed' marked with front | back
    · exact mem_append_left _ (mem_filter.mpr ⟨front, decide_eq_true marked⟩)
    · exact mem_append_right _ back

theorem writeHandshakeDone_drafted : Drafted d d.writeHandshakeDone := by
  unfold writeHandshakeDone
  split_ifs
  · exact Drafted.silent (fun _ => rfl) rfl
  · exact .refl d

theorem writePathResponses_drafted (responses : List Bytes) (d : Draft) :
    Drafted d (writePathResponses responses d) := by
  induction responses generalizing d with
  | nil => exact .refl d
  | cons response rest ih =>
    unfold writePathResponses
    split_ifs
    · refine Drafted.trans ?_ (ih _)
      exact Drafted.silent (fun _ => rfl) rfl
    · exact .refl d

theorem writeLimit_drafted (pending : Bool) (type : FrameType) (limit : Nat) (done : QUICConnection → QUICConnection)
    (note : QUICSentFrames → QUICSentFrames) (silent : ∀ c handed, (done c).ledger handed = c.ledger handed)
    (streams : ∀ frames, (note frames).streams = frames.streams) :
    Drafted d (d.writeLimit pending type limit done note) := by
  unfold writeLimit
  split_ifs
  · exact Drafted.silent (silent d.conn) (streams d.frames)
  · exact .refl d

theorem writeDatagrams_drafted (payloads : List Bytes) (d : Draft) : Drafted d (writeDatagrams payloads d) := by
  induction payloads generalizing d with
  | nil => exact .refl d
  | cons payload rest ih =>
    unfold writeDatagrams
    split_ifs
    · exact .refl d
    · refine Drafted.trans ?_ (ih _)
      exact Drafted.silent (fun _ => rfl) rfl

theorem writeApplicationFrames_drafted (complete : d.conn.handshakeComplete = true) :
    Drafted d d.writeApplicationFrames := by
  unfold writeApplicationFrames
  extract_lets d1 d2 d3 d4 d5 d6
  have done : Drafted d d1 := writeHandshakeDone_drafted d
  have paths : Drafted d1 d2 := writePathResponses_drafted _ d1
  have data : Drafted d2 d3 := writeLimit_drafted _ _ _ _ _ _ (fun _ _ => rfl) fun _ => rfl
  have bidi : Drafted d3 d4 := writeLimit_drafted _ _ _ _ _ _ (fun _ _ => rfl) fun _ => rfl
  have uni : Drafted d4 d5 := writeLimit_drafted _ _ _ _ _ _ (fun _ _ => rfl) fun _ => rfl
  have datagrams : Drafted d5 d6 := writeDatagrams_drafted _ d5
  have before := ((((done.trans paths).trans data).trans bidi).trans uni).trans datagrams
  exact before.trans (writeStreamFrames_drafted d6 (before.complete.trans complete))

variable (level : QUICLevel)

theorem writeCrypto_drafted : Drafted d (d.writeCrypto level) := by
  unfold writeCrypto
  extract_lets stream stretch offset owed overhead length conn frames
  split
  · exact .refl d
  split
  · exact .refl d
  split
  · exact .refl d
  · exact Drafted.silent (fun _ => rfl) rfl

theorem writePing_drafted : Drafted d d.writePing := by
  unfold writePing
  split_ifs
  · exact Drafted.silent (fun _ => rfl) rfl
  · exact .refl d

theorem writeAck_drafted (nowMs : Nat) : Drafted d (d.writeAck level nowMs).1 := by
  unfold writeAck
  extract_lets space scratch
  split_ifs
  · refine Drafted.silent (fun handed => ?_) rfl
    exact QUICConnection.ledger_space d.conn level handed _ rfl rfl
  · exact .refl d
  · exact .refl d

theorem fill_drafted (ackOnly : Bool) (complete : level = .application → d.conn.handshakeComplete = true) :
    Drafted d (d.fill level ackOnly) := by
  unfold fill
  split
  · exact .refl d
  extract_lets d1
  have application : Drafted d d1 := by
    simp only [d1]
    split_ifs with last
    · exact writeApplicationFrames_drafted d (complete last)
    · exact .refl d
  exact (application.trans (writeCrypto_drafted d1 level)).trans (writePing_drafted _)

end Draft
namespace QUICConnection

/-- What planning packets does to the connection, with every frame that is planned sent. -/
structure Laid (c c' : QUICConnection) (planned : List PlannedPacket) : Prop where
  moves : Moves c c'
  amplification : c'.toAntiAmplification = c.toAntiAmplification
  grows : SentGrows c.streams c'.streams
  frames : ∀ packet ∈ planned, FramesSent c'.streams packet.frames

theorem buildPacket_laid (level : QUICLevel) (start limit : Nat) (ackOnly : Bool)
    (nowMs : Nat) (complete : level = .application → c.handshakeComplete = true) :
    Laid c (c.buildPacket level start limit ackOnly nowMs).1
      (c.buildPacket level start limit ackOnly nowMs).2.toList := by
  unfold buildPacket
  extract_lets bodyLimit pnLength header pnOffset writer
  split
  · exact ⟨Moves.refl c, rfl, SentGrows.refl _, fun _ => nofun⟩
  split
  · exact ⟨Moves.refl c, rfl, SentGrows.refl _, fun _ => nofun⟩
  have acked := Draft.writeAck_drafted { conn := c, writer := writer } level nowMs
  generalize Draft.writeAck { conn := c, writer := writer } level nowMs = ack at acked
  obtain ⟨d, largestAcked⟩ := ack
  have whole := acked.trans (Draft.fill_drafted d level ackOnly fun last => acked.complete.trans (complete last))
  have covered := whole.frames fun frame member => nomatch member
  simp only
  split
  · exact ⟨whole.moves, whole.amplification, whole.grows, fun _ => nofun⟩
  refine ⟨whole.moves, whole.amplification, whole.grows, fun packet member => ?_⟩
  simp only [Option.toList_some, mem_singleton] at member
  rw [member]
  exact covered

theorem planPackets_laid (limit : Nat) (ackOnly : Bool) (nowMs : Nat) (levels : List QUICLevel)
    (c : QUICConnection) (offset : Nat) :
    Laid c (planPackets limit ackOnly nowMs levels c offset).1 (planPackets limit ackOnly nowMs levels c offset).2 := by
  induction levels generalizing c offset with
  | nil => exact ⟨Moves.refl c, rfl, SentGrows.refl _, fun _ => nofun⟩
  | cons level rest ih =>
    rw [planPackets_cons]
    by_cases may : c.maySend level = true
    · simp only [may, Bool.not_true, Bool.false_eq_true, if_false]
      have complete : level = .application → c.handshakeComplete = true := by
        rintro rfl
        simpa [maySend] using (Bool.and_eq_true _ _ ▸ may).2
      have built := buildPacket_laid c level offset limit ackOnly nowMs complete
      generalize c.buildPacket level offset limit ackOnly nowMs = packet at built
      obtain ⟨c1, _ | packet⟩ := packet
      · have later := ih c1 offset
        exact ⟨built.moves.trans later.moves, later.amplification.trans built.amplification,
          built.grows.trans later.grows, later.frames⟩
      have later := ih c1 packet.end
      refine ⟨built.moves.trans later.moves, later.amplification.trans built.amplification,
        built.grows.trans later.grows, fun other member => ?_⟩
      rcases mem_cons.mp member with same | rest
      · rw [same]
        exact (built.frames packet (by simp)).mono later.grows
      · exact later.frames other rest
    · simp only [may, Bool.not_false, if_true]
      exact ih c offset

theorem padLast_frames (planned : List PlannedPacket) (budget : Nat) (packet : PlannedPacket)
    (member : packet ∈ padLast planned budget) : ∃ old ∈ planned, packet.frames = old.frames := by
  unfold padLast at member
  split at member
  · exact ⟨packet, member, rfl⟩
  next last found =>
    extract_lets carriesInitial target minimumPayload padding padding' at member
    split_ifs at member
    · rcases mem_append.mp member with old | new
      · exact ⟨packet, dropLast_subset _ old, rfl⟩
      · rw [mem_singleton.mp new]
        exact ⟨last, mem_of_getLast? found, rfl⟩
    · exact ⟨packet, member, rfl⟩

theorem moves_recordSent (packet : PlannedPacket) (size nowMs : Nat)
    (covered : FramesSent c.streams packet.frames) : Moves c (c.recordSent packet size nowMs) := by
  apply Moves.effect
  intro handed
  unfold recordSent
  extract_lets sent c1
  have kept : ((c.spaces.get packet.level).record sent).acks = (c.spaces.get packet.level).acks := by
    unfold QUICPacketSpace.record
    extract_lets recorded
    split_ifs <;> rfl
  have acks : (c.spaces.set packet.level ((c.spaces.get packet.level).record sent)).map
      QUICPacketSpace.acks = c.spaces.map QUICPacketSpace.acks := by
    rw [PerLevel.map_set, kept, ← PerLevel.get_map c.spaces QUICPacketSpace.acks, PerLevel.set_get]
  have effect := Ledger.Effect.send (c.ledger handed) packet.level sent
    ((c.spaces.get packet.level).record sent).unsettled covered
    (by rw [ledger_outstanding]; exact QUICPacketSpace.record_unsettled _ sent)
  have ledger : ∀ recovery, ({ c1 with
      spaces := c.spaces.set packet.level ((c.spaces.get packet.level).record sent)
      recovery := recovery } : QUICConnection).ledger handed =
      { c.ledger handed with
        history := .sent packet.level sent :: c.history
        outstanding := (c.ledger handed).outstanding.set packet.level
          ((c.spaces.get packet.level).record sent).unsettled } := by
    intro recovery
    simp only [QUICConnection.ledger, acks, PerLevel.map_set]
    rfl
  exact (ledger _).symm ▸ effect

section
variable (P : Primitives)

theorem sealAll_spec (nowMs : Nat) (planned : List PlannedPacket) (c : QUICConnection)
    (out : Datagram) (covered : ∀ packet ∈ planned, FramesSent c.streams packet.frames) :
    Moves c (sealAll P nowMs planned c out).1 ∧
      (sealAll P nowMs planned c out).1.toAntiAmplification = c.toAntiAmplification := by
  induction planned generalizing c out with
  | nil => exact ⟨Moves.refl c, rfl⟩
  | cons packet rest ih =>
    unfold sealAll
    split
    · exact ⟨Moves.refl c, rfl⟩
    next sealed _ =>
      have noted := moves_recordSent c packet sealed.length nowMs (covered packet mem_cons_self)
      obtain ⟨later, same⟩ := ih (c.recordSent packet sealed.length nowMs)
        ⟨packet.start + sealed.length, out.bytes ++ sealed⟩
        fun other member => covered other (mem_cons_of_mem _ member)
      exact ⟨noted.trans later, same⟩

theorem moves_bytesSent {c c' : QUICConnection} (count : Nat)
    (allowed : c.addressValidated = false → c.bytesSent + count ≤ 3 * c.bytesReceived)
    (same : ∀ handed, c'.ledger handed = { c.ledger handed with
      amplification := { c.toAntiAmplification with bytesSent := c.bytesSent + count } }) :
    Moves c c' := by
  apply Moves.effect
  intro handed
  rw [same]
  exact Ledger.Effect.sentBytes (c.ledger handed) count allowed

variable (c : QUICConnection)

theorem moves_buildDatagram {budget : Nat} (nowMs : Nat) (small : budget < 0x4000)
    (allowed : c.addressValidated = false → c.bytesSent + budget ≤ 3 * c.bytesReceived) :
    Moves c (c.buildDatagram P budget nowMs).1 := by
  have bounded := buildDatagram_count_le P c small nowMs
  unfold buildDatagram at bounded ⊢
  extract_lets windowFull ackOnly at bounded
  extract_lets
  have laid := planPackets_laid budget ackOnly nowMs [.initial, .handshake, .application] c 0
  generalize planPackets budget ackOnly nowMs [.initial, .handshake, .application] c 0 = plan at laid bounded
  obtain ⟨c1, _ | ⟨first, rest⟩⟩ := plan
  · exact laid.moves
  simp only at bounded ⊢
  have covered : ∀ packet ∈ padLast (first :: rest) budget, FramesSent c1.streams packet.frames := by
    intro packet member
    obtain ⟨old, planned, same⟩ := padLast_frames (first :: rest) budget packet member
    unfold FramesSent
    rw [same]
    exact laid.frames old planned
  obtain ⟨sealing, amplification⟩ := sealAll_spec P nowMs (padLast (first :: rest) budget) c1 {} covered
  generalize sealAll P nowMs (padLast (first :: rest) budget) c1 {} = done at sealing amplification bounded
  obtain ⟨c2, _ | out⟩ := done
  · exact laid.moves.trans sealing
  have whole := laid.moves.trans sealing
  have same : c2.toAntiAmplification = c.toAntiAmplification := amplification.trans laid.amplification
  refine whole.trans (moves_bytesSent out.count ?_ fun handed => rfl)
  rw [same]
  intro unvalidated
  have enough := allowed unvalidated
  have most : out.count ≤ budget := bounded
  omega

theorem moves_buildClose {budget : Nat} (nowMs : Nat) (small : budget < 0x4000) (large : 64 ≤ budget)
    (allowed : c.addressValidated = false → c.bytesSent + budget ≤ 3 * c.bytesReceived) :
    Moves c (c.buildClose P budget nowMs).1 := by
  have bounded := buildClose_count_le P c small large nowMs
  unfold buildClose at bounded ⊢
  extract_lets level at bounded
  extract_lets
  split_ifs at bounded ⊢
  · exact .refl c
  split at bounded
  · exact .refl c
  split at bounded
  · exact .refl c
  next sealed _ =>
    refine moves_bytesSent sealed.length (fun unvalidated => ?_) fun handed => ?_
    · have enough := allowed unvalidated
      have most : sealed.length ≤ budget := bounded
      omega
    · exact congrArg (fun a : Ledger => { a with amplification :=
        { c.toAntiAmplification with bytesSent := c.bytesSent + sealed.length } })
        (ledger_space c level handed { c.spaces.get level with
          nextPacketNumber := (c.spaces.get level).nextPacketNumber + 1 } rfl rfl)

theorem moves_nextDatagram (capacity nowMs : Nat) : Moves c (c.nextDatagram P capacity nowMs).1 := by
  have small := sendBudget_small c capacity
  have allowed : 64 ≤ c.sendBudget capacity → c.addressValidated = false →
      c.bytesSent + c.sendBudget capacity ≤ 3 * c.bytesReceived := by
    intro large unvalidated
    unfold sendBudget at large ⊢
    simp only [unvalidated, Bool.false_eq_true, if_false] at large ⊢
    omega
  unfold nextDatagram
  extract_lets budget
  split_ifs with drained tight closing
  · exact .refl c
  · exact .refl c
  · exact moves_buildClose P c nowMs small (not_lt.mp tight) (allowed (not_lt.mp tight))
  · exact moves_buildDatagram P c nowMs small (allowed (not_lt.mp tight))

end
end QUICConnection
end AvianCore.Quic
