import AvianCore.Quic.Refine.Standing
import AvianCore.Quic.Refine.Transit

/-!
What frames bring about in the standing of a connection. A frame that may come in any packet brings
handshake bytes at most; streams, limits and events come with the others.
-/

namespace AvianCore.Quic
open AvianCore.Lib QUICStreamKind

namespace QUICConnection
variable {P : Primitives} {ok : Stage → Act → Prop} {c c' c'' : QUICConnection}

/-- The change from one connection to another is a run of acts that leaves the packets in transit alone. -/
structure Serves (P : Primitives) (ok : Stage → Act → Prop) (c c' : QUICConnection) : Prop where
  proceeds : Proceeds P ok c c'
  still : Still c c'

theorem Serves.refl (c : QUICConnection) : Serves P ok c c := ⟨.refl c, rfl⟩

theorem Serves.trans (first : Serves P ok c c') (second : Serves P ok c' c'') : Serves P ok c c'' :=
  ⟨first.proceeds.trans second.proceeds, first.still.trans second.still⟩

theorem Stands.serves (stands : Stands c c') (still : Still c c') : Serves P ok c c' := ⟨stands.proceeds, still⟩

def localMaxStreams (c : QUICConnection) (unidirectional : Bool) : Nat :=
  if unidirectional then c.localMaxStreamsUni else c.localMaxStreamsBidi

variable (c : QUICConnection) (r : QUICReader) (unidirectional : Bool) (id : Nat)

theorem localMaxStreams_set (last : Highest) :
    (c.setHighestIncoming unidirectional last).localMaxStreams unidirectional = c.localMaxStreams unidirectional := by
  cases unidirectional <;> rfl

theorem stage_setHighest (last : Highest) : (c.setHighestIncoming unidirectional last).stage = c.stage := by
  cases unidirectional <;> rfl

theorem serves_openNext (next : Highest) (follows : next.val = (c.highestIncoming unidirectional).val + 1)
    (granted : next.val < c.localMaxStreams unidirectional) (allowed : ok c.stage (.name unidirectional)) :
    Serves P ok c (c.openNext unidirectional next) := by
  obtain ⟨value, atLeast⟩ := next
  simp only at follows granted
  subst follows
  have enabled : ∀ handed, (c.standing handed).Enabled (.name unidirectional) := by
    intro handed
    cases unidirectional <;> exact granted
  refine ⟨.act (.name unidirectional) enabled (fun _ => allowed) ?_, by cases unidirectional <;> rfl⟩
  intro handed
  cases unidirectional with
  | true =>
    unfold standing openNext setHighestIncoming
    simp only [if_true, AList.keys_insert, Standing.apply]
    rfl
  | false =>
    unfold standing openNext setHighestIncoming
    simp only [Bool.false_eq_true, if_false, AList.keys_insert, Standing.apply]
    rfl

theorem stage_openIncoming (count i : Nat) (c : QUICConnection) (created : Option QUICStream) :
    (openIncoming unidirectional count i c created).1.stage = c.stage := by
  induction count generalizing i c created with
  | zero => rfl
  | succ count ih => exact ih (i + 1) _ _

theorem stage_openOrFind : (c.openOrFind id).1.stage = c.stage := by
  unfold openOrFind
  split
  · rfl
  split
  · rfl
  extract_lets unidirectional index highest
  split
  · rfl
  · exact (stage_setHighest _ _ _).trans (stage_openIncoming unidirectional _ _ c none)

theorem streamIDError_none {c : QUICConnection} {id : Nat} (legal : c.streamIDError id = none)
    (client : isServerInitiated id = false) :
    index id < c.localMaxStreams (isUnidirectional id) := by
  unfold streamIDError at legal
  rw [client] at legal
  change (if quicVarintMax < id then _ else if c.localMaxStreams _ ≤ _ then _ else none) = none at legal
  split at legal
  · cases legal
  split at legal
  · cases legal
  next below => exact not_le.mp below

theorem serves_openOrFind (legal : c.streamIDError id = none)
    (allowed : ∀ unidirectional, ok c.stage (.name unidirectional)) :
    Serves P ok c (c.openOrFind id).1 := by
  unfold openOrFind
  split
  · exact .refl c
  split
  · exact .refl c
  next client =>
    have granted := streamIDError_none legal (Bool.not_eq_true _ ▸ client)
    extract_lets unidirectional index highest
    split
    · exact .refl c
    next above =>
      have property := (c.highestIncoming unidirectional).property
      have below : (c.highestIncoming unidirectional).val < index := not_le.mp above
      have fits : (index : Int) < c.localMaxStreams unidirectional := by exact_mod_cast granted
      -- opening streams changes neither what was granted nor the stage
      apply openIncoming_steps (I := fun d => d.localMaxStreams unidirectional =
        c.localMaxStreams unidirectional ∧ d.stage = c.stage) unidirectional Serves.refl Serves.trans
      · rintro d next follows most ⟨limit, stage⟩
        have below : next.val < d.localMaxStreams unidirectional := by
          rw [limit]
          exact lt_of_le_of_lt most fits
        refine ⟨serves_openNext d unidirectional next follows below (stage ▸ allowed unidirectional), ?_, ?_⟩
        · exact (localMaxStreams_set _ unidirectional next).trans limit
        · exact (stage_setHighest _ unidirectional next).trans stage
      · rfl
      · simp only [highest]
        omega
      · exact ⟨rfl, rfl⟩

theorem serves_withStream (act : QUICConnection → QUICStream → Handled) (legal : c.streamIDError id = none)
    (allowed : ∀ unidirectional, ok c.stage (.name unidirectional))
    (each : ∀ c' s, c'.stage = c.stage → Serves P ok c' (act c' s).1) :
    Serves P ok c (c.withStream id act).1 := by
  have opened := serves_openOrFind (P := P) c id legal allowed
  have stage := stage_openOrFind c id
  unfold withStream
  split
  next c1 found =>
    rw [found] at opened
    exact opened
  next c1 s found =>
    rw [found] at opened stage
    exact opened.trans (each c1 s stage)

theorem serves_stop (error : QUICError) : Serves P ok c (c.stop error).1 := ⟨proceeds_fail c error, still_fail c error⟩

theorem stands_countGrowth {c : QUICConnection} {s : QUICStream} {«end» : Nat}
    (counted : c.countGrowth s «end» = some c') : Stands c c' ∧ Still c c' := by
  rcases countGrowth_some counted with ⟨-, rfl⟩ | ⟨-, -, rfl⟩
  · exact ⟨.refl _, rfl⟩
  · exact ⟨fun _ => rfl, rfl⟩

/-- What frames of 1-RTT packets bring is allowed. -/
def Admits (ok : Stage → Act → Prop) (stage : Stage) : Prop :=
  (∀ unidirectional, ok stage (.name unidirectional)) ∧ ∀ event, ok stage (.announce event true)

theorem serves_announce (event : QUICEvent) (admits : Admits ok c.stage) : Serves P ok c (c.append event) :=
  ⟨proceeds_append c event true (.inr (.inl rfl)) (fun _ => admits.2 event), rfl⟩

theorem serves_announceData (receive : QUICReceiveStream) (admits : Admits ok c.stage) :
    Serves P ok c (c.announceData id receive) := by
  unfold announceData
  extract_lets c1
  have readable : Serves P ok c c1 ∧ c1.stage = c.stage := by
    simp only [c1]
    split
    · exact ⟨Serves.refl c, rfl⟩
    · exact ⟨serves_announce c _ admits, rfl⟩
  split
  · exact readable.1.trans (serves_announce c1 _ (readable.2 ▸ admits))
  · exact readable.1

variable (s : QUICStream)

theorem serves_acceptStream (id offset : Nat) (data : Bytes) (fin : Bool) (r : QUICReader)
    (admits : Admits ok c.stage) :
    Serves P ok c (c.acceptStream s id offset data fin r).1 := by
  unfold acceptStream
  split
  · exact serves_stop c _
  next c1 counted =>
    obtain ⟨grown, still⟩ := stands_countGrowth counted
    split
    · exact (grown.serves still).trans (serves_stop c1 _)
    · exact (grown.serves still).trans (serves_stop c1 _)
    next receive accepted =>
      extract_lets c2
      have stored : Stands c c2 := grown.trans (stands_modifyStream c1 id _)
      exact (stored.serves still).trans (serves_announceData c2 id receive (stored.stage ▸ admits))

theorem serves_acceptReset (id code finalSize : Nat) (r : QUICReader) (admits : Admits ok c.stage) :
    Serves P ok c (c.acceptReset s id code finalSize r).1 := by
  unfold acceptReset
  split
  · exact serves_stop c _
  split
  · exact serves_stop c _
  split
  · exact serves_stop c _
  next c1 counted =>
    extract_lets c2 c3
    obtain ⟨grown, still⟩ := stands_countGrowth counted
    have marked : Stands c c2 := grown.trans fun _ => rfl
    have stored : Stands c c3 := marked.trans (stands_modifyStream c2 id _)
    exact (stored.serves (still.trans rfl)).trans (serves_announce c3 _ (stored.stage ▸ admits))

theorem serves_acceptStop (id code : Nat) (r : QUICReader) (admits : Admits ok c.stage) :
    Serves P ok c (c.acceptStop s id code r).1 := by
  unfold acceptStop
  extract_lets c1 c2
  have noted : Stands c c1 := stands_modifyStream c id _
  have answered : Stands c1 c2 ∧ Still c1 c2 := by
    simp only [c2]
    split
    · exact ⟨stands_overlooks.write c1 id _, still_overlooks.write c1 id _⟩
    · exact ⟨.refl c1, rfl⟩
  have both := noted.trans answered.1
  exact (both.serves answered.2).trans (serves_announce c2 _ (both.stage ▸ admits))

theorem serves_named (error : Option QUICError) (act : QUICConnection → QUICStream → Handled)
    (admits : Admits ok c.stage) (each : ∀ c' s, Admits ok c'.stage → Serves P ok c' (act c' s).1) :
    Serves P ok c (c.checkStreamID id (c.guarded error (c.withStream id act))).1 := by
  apply guarded_ends (serves_stop c)
  intro legal
  apply guarded_ends (serves_stop c)
  intro _
  apply serves_withStream c id act legal admits.1
  intro c' s stage
  exact each c' s (stage ▸ admits)

theorem serves_handleStream (bits : Nat) (r : QUICReader) (admits : Admits ok c.stage) :
    Serves P ok c (c.handleStream bits r).1 := by
  apply decoded_ends (serves_stop c)
  intro value _
  apply serves_named c _ _ _ admits
  exact fun c s admits => serves_acceptStream c s _ _ _ _ _ admits

theorem serves_handleResetStream (admits : Admits ok c.stage) : Serves P ok c (c.handleResetStream r).1 := by
  apply decoded_ends (serves_stop c)
  intro value _
  apply serves_named c _ _ _ admits
  exact fun c s admits => serves_acceptReset c s _ _ _ _ admits

theorem serves_handleStopSending (admits : Admits ok c.stage) : Serves P ok c (c.handleStopSending r).1 := by
  apply decoded_ends (serves_stop c)
  intro value _
  apply serves_named c _ _ _ admits
  exact fun c s admits => serves_acceptStop c s _ _ _ admits

theorem serves_handleMaxData (admits : Admits ok c.stage)
    (granted : ∀ limit, r.varint.map Prod.fst = some limit → ok c.stage (.grantData limit)) :
    Serves P ok c (c.handleMaxData r).1 := by
  apply decoded_ends (serves_stop c)
  intro value read
  obtain ⟨limit, later⟩ := value
  have allowed := granted limit (by rw [read]; rfl)
  dsimp only
  split
  next below =>
    have raised : Serves P ok c { c.mark (.maxData limit) with sendLimit := limit } := by
      refine ⟨.act (.grantData limit) (fun _ => trivial) (fun _ => allowed) ?_, rfl⟩
      intro handed
      unfold standing
      simp only [Standing.apply]
      rw [max_eq_right (show c.sendLimit ≤ limit from below.le)]
      rfl
    exact raised.trans (serves_announce _ _ admits)
  · exact Stands.serves (fun _ => rfl) rfl

theorem serves_raiseStreamLimit (id limit : Nat) : Serves P ok c (c.raiseStreamLimit id limit) := by
  unfold raiseStreamLimit
  split
  · exact .refl c
  next s found =>
    split
    · have raised := stands_overlooks.write c id fun s => { s with send := { s.send with limit := limit } }
      apply (raised.serves (still_overlooks.write c id _)).trans
      refine ⟨proceeds_noteWritable _ id ?_, still_noteWritable _ id⟩
      rw [raised.keys]
      exact keys_ne_nil found
    · exact .refl c

theorem serves_handleMaxStreamData : Serves P ok c (c.handleMaxStreamData r).1 := by
  apply decoded_ends (serves_stop c)
  intro value _
  obtain ⟨id, limit, later⟩ := value
  apply guarded_ends (serves_stop c)
  intro _
  have marked : Stands c (c.mark (.maxStreamData id limit)) := fun _ => rfl
  exact (marked.serves rfl).trans (serves_raiseStreamLimit _ id limit)

theorem serves_handleConnectionClose (application : Bool) (nowMs : Nat) (r : QUICReader) :
    Serves P ok c (c.handleConnectionClose application nowMs r).1 := by
  apply decoded_ends (serves_stop c)
  intro code _
  extract_lets c1 c2
  have closing : Stands c c2 := fun _ => rfl
  apply (closing.serves rfl).trans
  exact ⟨proceeds_append c2 _ false (.inl rfl) (fun impossible => by cases impossible), rfl⟩

theorem serves_handleDatagram (hasLength : Bool) (r : QUICReader) (admits : Admits ok c.stage) :
    Serves P ok c (c.handleDatagram hasLength r).1 := by
  apply guarded_ends (serves_stop c)
  intro _
  apply decoded_ends (serves_stop c)
  intro value _
  apply guarded_ends (serves_stop c)
  intro _
  have queued : Stands c { c with incomingDatagrams := c.incomingDatagrams ++ [value.1] } := fun _ => rfl
  exact (queued.serves rfl).trans (serves_announce _ _ admits)

theorem proceeds_handleAck (hasECN : Bool) (level : QUICLevel) (nowMs : Nat) (r : QUICReader) :
    Proceeds P ok c (c.handleAck hasECN level nowMs r).1 := by
  apply decoded_ends (proceeds_stop c)
  intro value _
  apply guarded_ends (proceeds_stop c)
  intro _
  exact proceeds_acceptAck c _ _ _ level nowMs

end QUICConnection

/-- The frames that come in any packet; the others come in 1-RTT packets only. -/
def FrameType.inHandshake : FrameType → Bool
  | .padding | .ping | .ack | .ackECN | .crypto | .connectionCloseTransport => true
  | _ => false

def Meeting.Brings (m : Meeting) : Act → Prop
  | .feed level p => m.type = .crypto ∧ level = m.level ∧ m.conn.fed m.level m.reader = some p
  | .grantData limit => m.type = .maxData ∧ m.reader.varint.map Prod.fst = some limit
  | .grantStreams unidirectional limit =>
      m.type = (if unidirectional then .maxStreamsUni else .maxStreamsBidi) ∧
        (QUICConnection.readStreamLimit m.reader).map Prod.fst = some limit
  | .name _ => m.type.inHandshake = false
  | .announce _ _ => m.type.inHandshake = false
  | _ => False

namespace QUICConnection
variable {P : Primitives} {ok : Stage → Act → Prop} {c c' c'' : QUICConnection}

theorem serves_processFrame (m : Meeting) (plain : m.type ≠ .ack ∧ m.type ≠ .ackECN ∧ m.type ≠ .crypto)
    (allowed : ∀ act, m.Brings act → ok m.conn.stage act) : Serves P ok m.conn (m.handled P).1 := by
  obtain ⟨c, level, type, nowMs, r⟩ := m
  have admits : type.inHandshake = false → Admits ok c.stage := by
    intro later
    exact ⟨fun _ => allowed _ later, fun _ => allowed _ later⟩
  show Serves P ok c (c.processFrame P type level nowMs r).1
  have stops : ∀ error, Serves P ok c (c.stop error).1 := serves_stop c
  have changes : ∀ {c' : QUICConnection}, Stands c c' → Still c c' → Serves P ok c c' := Stands.serves
  cases type with
  | padding | ping => exact .refl c
  | ack => exact absurd rfl plain.1
  | ackECN => exact absurd rfl plain.2.1
  | crypto => exact absurd rfl plain.2.2
  | resetStream => exact serves_handleResetStream c r (admits rfl)
  | stopSending => exact serves_handleStopSending c r (admits rfl)
  | newToken => exact stops _
  | stream bits => exact serves_handleStream c bits r (admits rfl)
  | maxData => exact serves_handleMaxData c r (admits rfl) fun limit read => allowed _ ⟨rfl, read⟩
  | maxStreamData => exact serves_handleMaxStreamData c r
  | maxStreamsBidi =>
    apply decoded_ends stops
    intro value read
    have granted := allowed (.grantStreams false value.1) ⟨rfl, by rw [read]; rfl⟩
    exact ⟨.act (.grantStreams false value.1) (fun _ => trivial) (fun _ => granted) fun _ => rfl, rfl⟩
  | maxStreamsUni =>
    apply decoded_ends stops
    intro value read
    have granted := allowed (.grantStreams true value.1) ⟨rfl, by rw [read]; rfl⟩
    exact ⟨.act (.grantStreams true value.1) (fun _ => trivial) (fun _ => granted) fun _ => rfl, rfl⟩
  | dataBlocked => exact decoded_ends stops _ _ fun _ _ => changes (fun _ => rfl) rfl
  | streamDataBlocked => exact decoded_ends stops _ _ fun _ _ => guarded_ends stops _ _ fun _ => .refl c
  | streamsBlockedBidi | streamsBlockedUni => exact decoded_ends stops _ _ fun _ _ => changes (fun _ => rfl) rfl
  | newConnectionID | retireConnectionID => exact decoded_ends stops _ _ fun _ _ => .refl c
  | pathChallenge => exact decoded_ends stops _ _ fun _ _ => changes (fun _ => rfl) rfl
  | pathResponse => exact decoded_ends stops _ _ fun _ _ => .refl c
  | connectionCloseTransport => exact serves_handleConnectionClose c false nowMs r
  | connectionCloseApplication => exact serves_handleConnectionClose c true nowMs r
  | handshakeDone => exact stops _
  | datagram => exact serves_handleDatagram c false r (admits rfl)
  | datagramWithLength => exact serves_handleDatagram c true r (admits rfl)

theorem proceeds_processFrame (m : Meeting) (allowed : ∀ act, m.Brings act → ok m.conn.stage act) :
    Proceeds P ok m.conn (m.handled P).1 := by
  obtain ⟨c, level, type, nowMs, r⟩ := m
  have plain (other : type ≠ .ack ∧ type ≠ .ackECN ∧ type ≠ .crypto) :=
    serves_processFrame (P := P) ⟨c, level, type, nowMs, r⟩ other allowed
  cases type with
  | ack => exact proceeds_handleAck c false level nowMs r
  | ackECN => exact proceeds_handleAck c true level nowMs r
  | crypto => exact proceeds_handleCrypto c level r fun p fed => allowed _ ⟨rfl, rfl, fed⟩
  | _ => exact (plain ⟨nofun, nofun, nofun⟩).proceeds

variable (c : QUICConnection)

theorem stands_openPacket (p : Bytes) (header : QUICPacketHeader)
    (level : QUICLevel) (nowMs : Nat) : Stands c (c.openPacket P p header level nowMs).1 := by
  intro handed
  unfold openPacket
  split
  · unfold openOneRTT
    dsimp only
    split
    · rfl
    split_ifs
    · rfl
    · rfl
    · split <;> rfl
    · rfl
  · rfl

theorem proceeds_validateAddress (level : QUICLevel) : Proceeds P ok c (c.validateAddress level) := by
  unfold validateAddress
  split
  · have validated : Proceeds P ok c { c with addressValidated := true } :=
      Proceeds.act .validate (fun _ => trivial) (fun brought => by cases brought) fun _ => rfl
    exact validated.trans (stands_discardSpace _ .initial).proceeds
  · exact .refl c

theorem stands_recordArrival (level : QUICLevel) (packetNumber : Nat) (ackEliciting : Bool) (nowMs : Nat) :
    Stands c (c.recordArrival level packetNumber ackEliciting nowMs) := by
  intro handed
  unfold recordArrival
  dsimp only
  split <;> rfl

theorem proceeds_spans : Spans P (Proceeds P ok) where
  refl := Proceeds.refl
  trans := Proceeds.trans
  started _ := Stands.proceeds fun _ => rfl
  counted _ _ := Stands.proceeds fun _ => rfl
  opened c p header level nowMs _ := (stands_openPacket c p header level nowMs).proceeds
  validated := proceeds_validateAddress
  taken _ _ _ := Stands.proceeds fun _ => rfl
  stopped := proceeds_fail
  recorded c level number eliciting nowMs := (stands_recordArrival c level number eliciting nowMs).proceeds
  cut _ _ _ := Stands.proceeds fun _ => rfl
  active _ _ := Stands.proceeds fun _ => rfl

theorem proceeds_receive (datagram : Bytes) (nowMs : Nat)
    (allowed : ∀ m ∈ c.receiveMeetings P datagram nowMs, ∀ act, m.Brings act → ok m.conn.stage act) :
    Proceeds P ok c (c.receive P datagram nowMs) := by
  apply proceeds_spans.receive
  intro m met
  exact proceeds_processFrame m (allowed m met)

end QUICConnection

end AvianCore.Quic
