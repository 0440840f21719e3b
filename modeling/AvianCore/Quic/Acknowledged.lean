import AvianCore.Quic.Duplicates
import AvianCore.Quic.Frames
import AvianCore.Quic.Sound

/-!
Which packets are acknowledged. A packet that opens, and is not a duplicate, has its number added
to the ack ranges unless the loop over its frames gives it up.
-/

namespace AvianCore.Quic
open AvianCore.Lib Quic.Flow AList

namespace Ledger

/-- Every stream that was opened is there or has been retired, and never both. -/
structure Traced (a : Ledger) : Prop where
  live : ∀ id, a.flow.streams.lookup id ≠ none → a.flow.Opened id
  kept : ∀ id, a.flow.Opened id → a.flow.streams.lookup id = none → ∃ s, .retired id s ∈ a.history
  gone : ∀ id s, .retired id s ∈ a.history → a.flow.Opened id ∧ a.flow.streams.lookup id = none

theorem Initial.traced {a : Ledger} (initial : a.Initial) : a.Traced where
  live := by simp [initial.streams]
  kept := by
    intro id opened
    have bidi := initial.highestBidi
    have uni := initial.highestUni
    simp only [Flow.Opened, initial.nextBidi, initial.nextUni] at opened
    split_ifs at opened <;> omega
  gone := by simp [initial.history]

namespace Traced
variable {a b : Ledger}

theorem same (traced : a.Traced) (streams : ∀ id, b.flow.streams.lookup id = none ↔ a.flow.streams.lookup id = none)
    (opened : ∀ id, b.flow.Opened id ↔ a.flow.Opened id)
    (marks : ∀ id s, Mark.retired id s ∈ b.history ↔ Mark.retired id s ∈ a.history) : b.Traced where
  live := fun id there => (opened id).mpr (traced.live id (mt (streams id).mpr there))
  kept := by
    intro id known absent
    obtain ⟨s, member⟩ := traced.kept id ((opened id).mp known) ((streams id).mp absent)
    exact ⟨s, (marks id s).mpr member⟩
  gone := by
    intro id s member
    obtain ⟨known, absent⟩ := traced.gone id s ((marks id s).mp member)
    exact ⟨(opened id).mpr known, (streams id).mpr absent⟩

theorem opens (traced : a.Traced) {new : Nat} {s : QUICStream} (opens : a.flow.Opens b.flow new s)
    (history : b.history = a.history) : b.Traced where
  live := by
    intro id there
    rw [opens.opened]
    by_cases same : id = new
    · exact .inl same
    · rw [opens.streams, lookup_insert_ne same] at there
      exact .inr (traced.live id there)
  kept := by
    intro id known absent
    by_cases same : id = new
    · rw [opens.streams, same, lookup_insert] at absent
      cases absent
    rw [opens.streams, lookup_insert_ne same] at absent
    rw [history]
    exact traced.kept id (((opens.opened id).mp known).resolve_left same) absent
  gone := by
    intro id t member
    rw [history] at member
    obtain ⟨known, absent⟩ := traced.gone id t member
    have differs : id ≠ new := fun same => opens.fresh (same ▸ known)
    rw [opens.streams, lookup_insert_ne differs]
    exact ⟨(opens.opened id).mpr (.inr known), absent⟩

theorem erase (traced : a.Traced) {old : Nat} {s : QUICStream}
    (live : a.flow.streams.lookup old = some s) (history : b.history = .retired old s :: a.history)
    (streams : b.flow.streams = a.flow.streams.erase old)
    (opened : ∀ id, b.flow.Opened id ↔ a.flow.Opened id) : b.Traced where
  live := by
    intro id there
    rw [opened]
    by_cases same : id = old
    · exact traced.live id (by rw [same, live]; exact nofun)
    · rw [streams, lookup_erase_ne same] at there
      exact traced.live id there
  kept := by
    intro id known absent
    rw [history]
    by_cases same : id = old
    · exact ⟨s, same ▸ List.mem_cons_self⟩
    rw [streams, lookup_erase_ne same] at absent
    obtain ⟨t, member⟩ := traced.kept id ((opened id).mp known) absent
    exact ⟨t, List.mem_cons_of_mem _ member⟩
  gone := by
    intro id t member
    rw [history, List.mem_cons] at member
    rw [opened, streams]
    rcases member with here | earlier
    · cases here
      exact ⟨traced.live old (by rw [live]; exact nofun), lookup_erase _ _⟩
    obtain ⟨known, absent⟩ := traced.gone id t earlier
    have differs : id ≠ old := by
      rintro rfl
      cases live.symm.trans absent
    rw [lookup_erase_ne differs]
    exact ⟨known, absent⟩

end Traced

theorem put_lookup_none (f : Flow) (id other : Nat) (s : QUICStream) :
    (f.put id s).streams.lookup other = none ↔ f.streams.lookup other = none := by
  simp only [put, Table.lookup_modify]
  split_ifs with same
  · subst same
    simp
  · rfl

variable {a b : Ledger}

theorem Effect.traced (effect : Effect a b) (traced : a.Traced) : b.Traced := by
  cases effect
  case completed =>
    refine traced.same (fun id => ?_) (fun _ => Iff.rfl) (by simp)
    simp [adopt, Table.lookup_mapValues]
  case openIncoming kind => exact traced.opens (openIncoming_opens a.flow kind) rfl
  case openLocal kind => exact traced.opens (openLocal_opens a.flow kind) rfl
  case retire id s live => exact traced.erase live rfl rfl fun _ => Iff.rfl
  case stream id s s' marks live step =>
    obtain ⟨writable, writableSet, same⟩ := markIf_eq (a.flow.put id s') marks id
    rw [same]
    exact traced.same (fun other => put_lookup_none a.flow id other s') (fun _ => Iff.rfl) fun _ _ => Iff.rfl
  case markWritable id =>
    obtain ⟨writable, writableSet, same⟩ := markWritable_eq a.flow id
    rw [same]
    exact traced.same (fun _ => Iff.rfl) (fun _ => Iff.rfl) fun _ _ => Iff.rfl
  case data id s s' growth live _ _ _ _ _ _ =>
    unfold charge
    split_ifs
    all_goals exact traced.same (put_lookup_none a.flow id · s') (fun _ => Iff.rfl) (by simp)
  case resetReceived id s s' finalSize _ _ _ _ _ _ _ =>
    unfold charge
    split_ifs
    all_goals exact traced.same (put_lookup_none a.flow id · s') (fun _ => Iff.rfl) (by simp [mark])
  case overcharge =>
    unfold charge
    split_ifs
    · exact traced
    · exact traced.same (fun _ => Iff.rfl) (fun _ => Iff.rfl) (by simp)
  case turn id s s' room sentBytes stays reset _ _ _ _ =>
    refine traced.same (fun other => ?_) (fun other => ?_) ?_
    · cases stays <;> exact put_lookup_none a.flow id other s'
    · cases stays <;> exact Iff.rfl
    · cases reset <;> simp
  case settle => exact traced.same (fun _ => Iff.rfl) (fun _ => Iff.rfl) (by simp)
  all_goals exact traced.same (fun _ => Iff.rfl) (fun _ => Iff.rfl) (by simp [mark])

variable {key : QUICLevel × Nat}

theorem Begins.traced (begins : Begins key a b) (traced : a.Traced) : b.Traced := by
  cases begins
  exact traced.same (fun _ => Iff.rfl) (fun _ => Iff.rfl) (by simp [mark])

theorem Ends.traced (ends : Ends key a b) (traced : a.Traced) : b.Traced := by
  cases ends <;> exact traced.same (fun _ => Iff.rfl) (fun _ => Iff.rfl) (by simp [mark])

/-- What holds of the ledger of every connection. -/
structure Valid (a : Ledger) : Prop extends Sane a, Traced a

theorem Initial.valid {a : Ledger} (initial : a.Initial) : a.Valid := ⟨initial.sane, initial.traced⟩

theorem effects_valid (run : effects.Chain a b) (valid : a.Valid) : b.Valid :=
  run.keeps (fun _ _ effect _ valid => ⟨effect.sane valid.toSane, effect.traced valid.toTraced⟩)
    (fun _ _ => trivial) valid

theorem Begins.valid (begins : Begins key a b) (valid : a.Valid) : b.Valid :=
  ⟨begins.sane valid.toSane, begins.traced valid.toTraced⟩

theorem machine_valid (run : machine.Chain a b) (valid : a.Valid) : b.Valid := machine_keeps run
    (fun _ _ effect _ valid => ⟨effect.sane valid.toSane, effect.traced valid.toTraced⟩)
    (fun _ _ _ begins => begins.valid)
    (fun _ _ _ ends valid => ⟨ends.sane valid.toSane, ends.traced valid.toTraced⟩)
    (fun _ _ => trivial) valid

end Ledger

namespace QUICConnection
section
variable (P : Primitives)

/-- The states in which a packet can find a connection: between two calls, or after other packets
of its datagram. -/
inductive Arises : QUICConnection → Prop where
  | resting (w : World) (reachable : World.Reachable P w) : Arises w.conn
  | datagram (c : QUICConnection) (arises : Arises c) (length : Nat) : Arises { c with
      acceptedNewPacket := false
      bytesReceived := c.bytesReceived + length }
  | packet (c : QUICConnection) (arises : Arises c) (p : Bytes) (header : QUICPacketHeader)
      (nowMs : Nat) : Arises (c.receiveOne P p header nowMs)

variable {P}

theorem Arises.chain {c : QUICConnection} (arises : Arises P c) : ∃ start handed,
    Ledger.Initial start ∧ Ledger.machine.Chain start (c.ledger handed) := by
  induction arises with
  | resting w reachable =>
    obtain ⟨start, initial, chain⟩ := reachable.chain
    exact ⟨start, _, initial, chain⟩
  | datagram c _ length ih =>
    obtain ⟨start, handed, initial, chain⟩ := ih
    have counted : Moves c { c with
        acceptedNewPacket := false
        bytesReceived := c.bytesReceived + length } :=
      Moves.effect fun handed => Ledger.Effect.received (c.ledger handed) length
    exact ⟨start, handed, initial, chain.trans (counted.runs handed)⟩
  | packet c _ p header nowMs ih =>
    obtain ⟨start, handed, initial, chain⟩ := ih
    exact ⟨start, handed, initial, chain.trans (runs_receiveOne P c p header nowMs handed)⟩

theorem Arises.valid {c : QUICConnection} (arises : Arises P c) : ∃ handed, (c.ledger handed).Valid := by
  obtain ⟨start, handed, initial, chain⟩ := arises.chain
  exact ⟨handed, Ledger.machine_valid chain initial.valid⟩

end

/-- The next frame is a STREAM, RESET_STREAM or STOP_SENDING that the peer may send on this
stream. -/
def Names (c : QUICConnection) (level : QUICLevel) (r : QUICReader) (id : Nat) : Prop :=
  ∃ type eliciting later, readFrameType level r = .ok (type, eliciting, later) ∧
    namedStream type later = some id ∧ mayName type id = true ∧ c.streamIDError id = none

variable {c : QUICConnection} {handed : Nat}

theorem missing_iff_retired {id : Nat} (traced : (c.ledger handed).Traced) (known : c.streamIDError id = none) :
    c.Missing id ↔ ∃ s, Mark.retired id s ∈ c.history := by
  constructor
  · rintro ⟨absent, past⟩
    refine traced.kept id ?_ absent
    change c.toFlow.Opened id
    unfold streamIDError at known
    unfold Flow.Opened
    cases server : QUICStreamKind.isServerInitiated id with
    | true =>
      rw [server] at known
      simp only [if_true] at known ⊢
      split_ifs at known ⊢ <;> omega
    | false =>
      have below := past.resolve_left (by simp [server])
      simp only [Bool.false_eq_true, if_false]
      exact below
  · rintro ⟨s, member⟩
    obtain ⟨opened, absent⟩ := traced.gone id s member
    refine ⟨absent, ?_⟩
    change c.toFlow.Opened id at opened
    by_cases server : QUICStreamKind.isServerInitiated id = true
    · exact .inl server
    · rw [Flow.Opened, if_neg server] at opened
      exact .inr opened

theorem nextStrays_iff (traced : (c.ledger handed).Traced) (level : QUICLevel) (r : QUICReader) :
    c.NextStrays level r ↔ ∃ id s, c.Names level r id ∧ Mark.retired id s ∈ c.history := by
  constructor
  · rintro ⟨type, eliciting, later, read, id, named, may, known, missing⟩
    obtain ⟨s, member⟩ := (missing_iff_retired traced known).mp missing
    exact ⟨id, s, ⟨type, eliciting, later, read, named, may, known⟩, member⟩
  · rintro ⟨id, s, ⟨type, eliciting, later, read, named, may, known⟩, member⟩
    exact ⟨type, eliciting, later, read, id, named, may, known, (missing_iff_retired traced known).mpr ⟨s, member⟩⟩

/-- The packet number was added to the ack ranges last, and an ACK is due. It is in the ranges
unless they were full and it is no higher than the oldest of them. -/
def Acknowledges (c : QUICConnection) (level : QUICLevel) (packetNumber : Nat) : Prop :=
  ∃ before earlier, c.history = .ackAdded level before packetNumber :: earlier ∧
    (c.spaces.get level).acks = before.add packetNumber ∧
    (c.spaces.get level).ackPending = true ∧
    (before.Retains packetNumber → (c.spaces.get level).acks.contains packetNumber = true)

theorem recordArrival_acknowledges {level : QUICLevel} (proper : (c.spaces.get level).acks.Proper)
    (packetNumber : Nat) (ackEliciting : Bool) (nowMs : Nat) :
    (c.recordArrival level packetNumber ackEliciting nowMs).Acknowledges level packetNumber := by
  have same := recordArrival_ledger c level packetNumber ackEliciting nowMs 0
  have history : (c.recordArrival level packetNumber ackEliciting nowMs).history =
      .ackAdded level (c.spaces.get level).acks packetNumber :: c.history := by
    rw [← ledger_acks c 0 level]
    exact congrArg Ledger.history same
  have acks : ((c.recordArrival level packetNumber ackEliciting nowMs).spaces.get level).acks =
      (c.spaces.get level).acks.add packetNumber := by
    rw [← ledger_acks _ 0 level, same, ← ledger_acks c 0 level]
    exact PerLevel.get_set_self _ _ _
  refine ⟨_, _, history, acks, ?_, fun retains => ?_⟩
  · unfold recordArrival
    cases level <;> cases ackEliciting <;> rfl
  · rw [acks]
    exact QUICAckRanges.contains_add proper (.inr rfl) retains

variable {P : Primitives}

theorem processPayload_acknowledges_iff (valid : (c.ledger handed).Valid) (level : QUICLevel)
    (packet : QUICProtect.Opened) (nowMs : Nat) (keyed : (c.keys.get level).receive.isValid = true)
    (fresh : (c.spaces.get level).acks.contains packet.packetNumber = false) :
    ((c.processPayload P level packet nowMs).Acknowledges level packet.packetNumber ∨
        (c.processPayload P level packet nowMs).status.isClosing = true) ↔
      ¬GivesUp P level nowMs (c.mark (.frames level packet.packetNumber)) ⟨packet.payload, 0⟩ := by
  have begins := begins_frames c keyed fresh handed
  have body := moves_processFrames P (c.mark (.frames level packet.packetNumber)) packet.payload level nowMs handed
  have after := Ledger.effects_valid body (begins.valid valid)
  rw [← processFrames_none_iff]
  unfold processPayload
  extract_lets c1
  split
  next c2 stopped =>
    rw [stopped]
    constructor
    · rintro (⟨before, earlier, history, -⟩ | closing) ⟨-, opened⟩
      · cases history
      · exact absurd closing (by simp [opened, mark])
    · intro closing
      right
      change c2.status.isClosing = true
      simpa using closing
  next c2 ackEliciting done =>
    rw [done] at after ⊢
    have proper : (c2.spaces.get level).acks.Proper := by
      rw [← ledger_acks c2 handed level]
      exact after.proper level
    simp only [reduceCtorEq, false_and, not_false_eq_true, iff_true]
    exact .inl (recordArrival_acknowledges proper _ ackEliciting nowMs)

variable (P)

/-- The connection when a packet that opened is looked for among the duplicates. -/
def unsealed (c : QUICConnection) (p : Bytes) (header : QUICPacketHeader) (level : QUICLevel)
    (nowMs : Nat) : QUICConnection :=
  (c.openPacket P p header level nowMs).1.validateAddress level

theorem unsealed_valid (valid : (c.ledger handed).Valid) (p : Bytes) (header : QUICPacketHeader)
    (level : QUICLevel) (nowMs : Nat) (keyed : (c.keys.get level).receive.isValid = true) :
    ((c.unsealed P p header level nowMs).ledger handed).Valid ∧
      ((c.unsealed P p header level nowMs).keys.get level).receive.isValid = true := by
  have same := openPacket_ledger P c p header level nowMs keyed
  obtain ⟨validated, keys⟩ := validateAddress_spec (c.openPacket P p header level nowMs).1 level
  refine ⟨Ledger.effects_valid (validated handed) (by rw [same]; exact valid), ?_⟩
  unfold unsealed
  rw [keys, ← ledger_receivable _ 0, same, ledger_receivable, keyed]

/-- A packet that opens and is not a duplicate is acknowledged, or the connection is closing, for
exactly the packets in which no frame that is reached with the connection open names a retired
stream. -/
theorem packet_acknowledged_iff (c : QUICConnection) (arises : Arises P c) (p : Bytes)
    (header : QUICPacketHeader) (level : QUICLevel) (nowMs : Nat) (packet : QUICProtect.Opened)
    (version : header.isLong = true → header.version = c.version) (keyed : (c.keys.get level).receive.isValid = true)
    (opened : (c.openPacket P p header level nowMs).2 = some packet)
    (fresh : ((c.unsealed P p header level nowMs).spaces.get level).acks.contains packet.packetNumber = false) :
    ((c.receivePacket P p header level nowMs).1.Acknowledges level packet.packetNumber ∨
        (c.receivePacket P p header level nowMs).1.status.isClosing = true) ↔
      ∀ c' later, ComesTo P level nowMs ((c.unsealed P p header level nowMs).mark
          (.frames level packet.packetNumber), ⟨packet.payload, 0⟩) (c', later) →
        c'.status.isClosing = false → ∀ id s, c'.Names level later id → Mark.retired id s ∉ c'.history := by
  obtain ⟨handed, valid⟩ := arises.valid
  obtain ⟨ready, stillKeyed⟩ := unsealed_valid P valid p header level nowMs keyed
  have result : (c.receivePacket P p header level nowMs).1 =
      (c.unsealed P p header level nowMs).processPayload P level packet nowMs := by
    unfold receivePacket
    rw [if_neg (by simpa using version), if_neg (by simp [keyed])]
    generalize shape : c.openPacket P p header level nowMs = outcome at opened
    obtain ⟨c1, body⟩ := outcome
    cases opened
    unfold unsealed at fresh ⊢
    rw [shape] at fresh ⊢
    simp only [acceptPacket, fresh]
    rfl
  rw [result, processPayload_acknowledges_iff ready level packet nowMs stillKeyed fresh]
  have begins := begins_frames _ stillKeyed fresh handed
  have traced : ∀ c' later, ComesTo P level nowMs ((c.unsealed P p header level nowMs).mark
      (.frames level packet.packetNumber), ⟨packet.payload, 0⟩) (c', later) →
      (c'.ledger handed).Traced := fun c' later turn =>
    (Ledger.effects_valid (turn.moves P handed) (begins.valid ready)).toTraced
  constructor
  · intro finishes c' later turn alive id s names member
    exact finishes ⟨c', later, turn, alive,
      (nextStrays_iff (traced c' later turn) level later).mpr ⟨id, s, names, member⟩⟩
  · rintro none ⟨c', later, turn, alive, strays⟩
    obtain ⟨id, s, names, member⟩ := (nextStrays_iff (traced c' later turn) level later).mp strays
    exact none c' later turn alive id s names member

end QUICConnection

namespace World
open QUICConnection

/-- The first 1-RTT packet of a connection, with a PING. -/
theorem packet_acknowledged_iff_ping :
    let c := (start.run .transparent [Client.hello, Client.finished]).conn
    let p := Client.shortPacket 0 [1, 0, 0]
    let header := QUICPacket.parseHeader p c.localCID.length
    let after := (c.receivePacket .transparent p header .application 3).1
    after.spaces.application.acks.contains 0 = true ∧
      ((after.Acknowledges .application 0 ∨ after.status.isClosing = true) ↔
        ∀ c' later, ComesTo .transparent .application 3 ((c.unsealed .transparent p header .application
            3).mark (.frames .application 0), ⟨[1, 0, 0], 0⟩) (c', later) →
          c'.status.isClosing = false → ∀ id s, c'.Names .application later id → Mark.retired id s ∉ c'.history) := by
  intro c p header after
  have arises : Arises .transparent c :=
    .resting (start.run .transparent [Client.hello, Client.finished]) (start_reaches _)
  have known : after.spaces.application.acks.contains 0 = true := by decide +kernel
  have version : header.isLong = true → header.version = c.version := by decide +kernel
  have keyed : (c.keys.get .application).receive.isValid = true := by decide +kernel
  have opened : (c.openPacket .transparent p header .application 3).2 =
      some ⟨0, [1, 0, 0], false, 1⟩ := by decide +kernel
  have fresh : ((c.unsealed .transparent p header .application 3).spaces.get .application).acks.contains
      0 = false := by decide +kernel
  -- the rest is about any connection and packet with these facts
  clear_value c p header
  exact ⟨known, packet_acknowledged_iff .transparent c arises p header .application 3 _ version keyed opened fresh⟩

def isAdded (level : QUICLevel) (packetNumber : Nat) : Mark → Bool
  | .ackAdded space _ added => decide (space = level ∧ added = packetNumber)
  | _ => false

theorem not_acknowledges {c : QUICConnection} {level : QUICLevel} {packetNumber : Nat}
    (never : c.history.any (isAdded level packetNumber) = false) :
    ¬c.Acknowledges level packetNumber := by
  rintro ⟨before, earlier, history, -⟩
  simp [history, isAdded] at never

/-- Stream 2 is received to its end, released and so retired. The client sends its last frame once
more, with a DATAGRAM behind it: the connection stays open, packet 1 is not added to the ack ranges
and the DATAGRAM is lost. -/
theorem retired_stream_unacknowledged :
    let before := start.run .transparent [Client.hello, Client.finished,
      .receive (Client.shortPacket 0 [0x0b, 2, 1, 7]) 3, .releaseStream 2]
    let after := before.step .transparent (.receive (Client.shortPacket 1 [0x0b, 2, 1, 7, 0x30, 5]) 4)
    after.conn.status = .connected ∧ after.conn.spaces.application.acks.ranges = [⟨0, 0⟩] ∧
      after.conn.incomingDatagrams = [] ∧ ¬after.conn.Acknowledges .application 1 := by
  exact ⟨by decide +kernel, by decide +kernel, by decide +kernel, not_acknowledges (by decide +kernel)⟩

end World
end AvianCore.Quic
