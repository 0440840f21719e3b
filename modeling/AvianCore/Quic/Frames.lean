import AvianCore.Quic.Refine.Receive

/-!
How a frame handler can answer. It goes on with a reader that has moved forward, or it has closed
the connection; only a frame for a stream that is no longer there does neither.
-/

namespace AvianCore.Quic
open AvianCore.Lib QUICReader Nat Option

/-- Whatever was read, the reader after it is no further back than `r`. -/
def Reads {α : Type} (r : QUICReader) (after : α → QUICReader) (result : Option α) : Prop :=
  ∀ value, result = some value → (after value).Within r

namespace Reads
variable {α β : Type} {r now : QUICReader} {after : α → QUICReader} {later : β → QUICReader}

theorem bind {result : Option (α × QUICReader)} {next : α × QUICReader → Option β} (first : Reads r Prod.snd result)
    (rest : ∀ value now, now.Within r → Reads r later (next (value, now))) :
    Reads r later (result >>= next) := by
  intro value read
  obtain ⟨middle, one, two⟩ := bind_eq_some_iff.mp read
  exact rest middle.1 middle.2 (first middle one) value two

theorem bindReader {result : Option QUICReader} {next : QUICReader → Option β}
    (first : Reads r id result) (rest : ∀ now, now.Within r → Reads r later (next now)) :
    Reads r later (result >>= next) := by
  intro value read
  obtain ⟨middle, one, two⟩ := bind_eq_some_iff.mp read
  exact rest middle (first middle one) value two

theorem fail : Reads r after none := by
  intro value read
  cases read

theorem done {value : α} (within : (after value).Within r) : Reads r after (some value) := by
  intro other read
  cases read
  exact within

theorem absent (default : α) (within : now.Within r) : Reads r Prod.snd (some (default, now)) := .done within

theorem ite {condition : Prop} [Decidable condition] {yes no : Option α} (first : Reads r after yes)
    (second : Reads r after no) : Reads r after (if condition then yes else no) := by
  split_ifs
  · exact first
  · exact second

theorem varint (within : now.Within r) : Reads r Prod.snd now.varint := fun _ read => (varint_within read).trans within

theorem varintAsInt (within : now.Within r) : Reads r Prod.snd now.varintAsInt :=
  fun _ read => (varint_within (varintAsInt_varint read)).trans within

theorem byte (within : now.Within r) : Reads r Prod.snd now.byte := fun _ read => (byte_within read).trans within

theorem take (within : now.Within r) (n : Nat) : Reads r Prod.snd (now.take n) :=
  fun _ read => (take_within read).trans within

theorem skip (within : now.Within r) (n : Nat) : Reads r id (now.skip n) :=
  fun _ read => (skip_within read).trans within

end Reads

variable {r : QUICReader}

theorem readAckRanges_reads (fuel count smallest : Nat) {now : QUICReader} (within : now.Within r) :
    Reads r Prod.snd (readAckRanges fuel count smallest now) := by
  induction fuel generalizing count smallest now with
  | zero =>
    cases count with
    | zero => exact .done within
    | succ count => exact .fail
  | succ fuel ih =>
    cases count with
    | zero => exact .done within
    | succ count =>
      rw [readAckRanges]
      refine .bind (.varint within) fun gap r1 one => .bind (.varint one) fun length r2 two => ?_
      refine .ite .fail (.ite .fail ?_)
      exact .bind (ih _ _ two) fun ranges r3 three => .done three

theorem quicReadAckFrame_reads (r : QUICReader) (hasECN : Bool) :
    Reads r (fun fields => fields.2.2) (quicReadAckFrame r hasECN) := by
  refine .bind (.varint (le_refl _)) fun largest r1 one => ?_
  refine .bind (.varint one) fun delay r2 two => ?_
  refine .bind (.varint two) fun count r3 three => ?_
  refine .bind (.varint three) fun firstRange r4 four => .ite .fail ?_
  refine .bind (readAckRanges_reads _ _ _ four) fun ranges r5 five => .ite ?_ (.done five)
  refine .bind (.varint five) fun _ r6 six => .bind (.varint six) fun _ r7 seven => ?_
  exact .bind (.varint seven) fun _ r8 eight => .done eight

namespace QUICConnection

variable (r : QUICReader)

theorem readPair_reads : Reads r (fun fields => fields.2.2) (readPair r) :=
  .bind (.varint (le_refl _)) fun _ _ one => .bind (.varint one) fun _ _ two => .done two

theorem readTriple_reads : Reads r (fun fields => fields.2.2.2) (readTriple r) :=
  .bind (.varint (le_refl _)) fun _ _ one => .bind (.varint one) fun _ _ two =>
    .bind (.varint two) fun _ _ three => .done three

theorem readStreamLimit_reads : Reads r Prod.snd (readStreamLimit r) :=
  .bind (.varint (le_refl _)) fun _ _ one => .ite (.done one) .fail

theorem readStreamFrame_reads (bits : Nat) (r : QUICReader) :
    Reads r (fun fields => fields.2.2.2) (readStreamFrame bits r) := by
  refine .bind (.varint (le_refl _)) fun id r1 one => ?_
  refine .ite (.bind (.varint one) ?_) (.bind (.absent _ one) ?_)
  all_goals intro offset r2 two
  all_goals refine .ite (.bind (.varintAsInt two) ?_) (.bind (.absent _ two) ?_)
  all_goals intro length r3 three
  all_goals exact .bind (.take three _) fun _ _ four => .done four

theorem readNewConnectionID_reads : Reads r id (readNewConnectionID r) := by
  refine .bind (.varint (le_refl _)) fun sequence r1 one => ?_
  refine .bind (.varint one) fun retirePrior r2 two => ?_
  refine .bind (.byte two) fun length r3 three => .ite ?_ .fail
  refine .bind (.take three _) fun _ r4 four => .bindReader (.skip four 16) fun r5 five => ?_
  exact .ite .fail (.done five)

theorem readDatagram_reads (hasLength : Bool) (r : QUICReader) : Reads r Prod.snd (readDatagram hasLength r) := by
  refine .ite (.bind (.varintAsInt (le_refl _)) ?_) (.bind (.absent _ (le_refl _)) ?_)
  all_goals exact fun _ _ one => .take one _

theorem readCrypto_reads : Reads r (fun fields => fields.2.2) (readCrypto r) :=
  .bind (.varint (le_refl _)) fun _ _ one => .bind (.varintAsInt one) fun _ _ two =>
    .bind (.take two _) fun _ _ three => .done three

/-- A handler goes on with a reader that is no further back, or has closed the connection, unless
it is excused. -/
structure Answers (excused : Prop) (r : QUICReader) (handled : Handled) : Prop where
  onward : ∀ later, handled.2 = some later → later.Within r
  closed : handled.2 = none → excused ∨ handled.1.status.isClosing = true

section
variable {excused : Prop} {r : QUICReader}

variable (c : QUICConnection)

theorem fail_isClosing (error : QUICError) : (c.fail error).status.isClosing = true := close_isClosing c _ _ _

variable {later : QUICReader}

theorem answers_some {c : QUICConnection} (within : later.Within r) : Answers excused r (c, some later) where
  onward := fun _ same => Option.some.inj same ▸ within
  closed := fun same => nomatch same

theorem answers_none {c : QUICConnection} (stopped : excused ∨ c.status.isClosing = true) :
    Answers excused r (c, none) where
  onward := fun _ same => nomatch same
  closed := fun _ => stopped

theorem answers_stop (error : QUICError) : Answers excused r (c.stop error) :=
  answers_none (.inr (c.fail_isClosing error))

theorem answers_decoded {α : Type} {fields : Option α} {act : α → Handled}
    (each : ∀ value, fields = some value → Answers excused r (act value)) :
    Answers excused r (c.decoded fields act) := by
  unfold decoded
  split
  · exact answers_stop c _
  next value => exact each value rfl

theorem answers_guarded {error : Option QUICError} {act : Handled} (goes : error = none → Answers excused r act) :
    Answers excused r (c.guarded error act) := by
  unfold guarded
  split
  · exact answers_stop c _
  · exact goes rfl

/-- A stream that is not there and will not be opened: it is this server's, or it was opened
before. -/
def Missing (c : QUICConnection) (id : Nat) : Prop :=
  c.streams.lookup id = none ∧ (QUICStreamKind.isServerInitiated id = true ∨
    (QUICStreamKind.index id : Int) ≤ (c.highestIncoming (QUICStreamKind.isUnidirectional id)).val)

variable {id : Nat}

theorem openOrFind_missing {c : QUICConnection} (missing : c.Missing id) : c.openOrFind id = (c, none) := by
  obtain ⟨absent, past⟩ := missing
  unfold openOrFind
  rw [absent]
  dsimp only
  split_ifs with server below
  · rfl
  · rfl
  · exact absurd (past.resolve_left server) below

theorem openIncoming_created (unidirectional : Bool) (count i : Nat) (c : QUICConnection)
    (created : Option QUICStream) (some : 0 < count ∨ created.isSome = true) :
    (openIncoming unidirectional count i c created).2.isSome = true := by
  induction count generalizing i c created with
  | zero => exact some.resolve_left (lt_irrefl 0)
  | succ count ih => exact ih _ _ _ (.inr rfl)

theorem missing_of_openOrFind {c : QUICConnection} (missing : (c.openOrFind id).2 = none) : c.Missing id := by
  cases found : c.streams.lookup id with
  | some s => simp [openOrFind, found] at missing
  | none =>
    refine ⟨found, ?_⟩
    by_contra newer
    obtain ⟨client, above⟩ := not_or.mp newer
    unfold openOrFind at missing
    rw [found] at missing
    dsimp only at missing
    rw [if_neg client, if_neg above] at missing
    have opened := openIncoming_created (QUICStreamKind.isUnidirectional id)
      (QUICStreamKind.index id - (c.highestIncoming (QUICStreamKind.isUnidirectional id)).val).toNat
      ((c.highestIncoming (QUICStreamKind.isUnidirectional id)).val + 1).toNat c none
      (.inl (by omega))
    rw [(or_eq_none_iff.mp missing).2] at opened
    cases opened

theorem answers_withStream {c : QUICConnection} {act : QUICConnection → QUICStream → Handled}
    (excuse : c.Missing id → excused) (each : ∀ c' s, Answers excused r (act c' s)) :
    Answers excused r (c.withStream id act) := by
  unfold withStream
  split
  next c' missing => exact answers_none (.inl (excuse (missing_of_openOrFind (by rw [missing]))))
  next c' s found => exact each c' s

/-- The stream that a STREAM, RESET_STREAM or STOP_SENDING frame names. -/
def namedStream (type : FrameType) (r : QUICReader) : Option Nat :=
  match type with
  | .stream bits => (readStreamFrame bits r).map Prod.fst
  | .resetStream => (readTriple r).map Prod.fst
  | .stopSending => (readPair r).map Prod.fst
  | _ => none

def mayName (type : FrameType) (id : Nat) : Bool :=
  match type with
  | .stopSending => !isReceiveOnly id
  | _ => !isSendOnly id

/-- A frame for a stream that the peer may name and that is not there. -/
def Strays (c : QUICConnection) (type : FrameType) (r : QUICReader) : Prop :=
  ∃ id, namedStream type r = some id ∧ mayName type id = true ∧ c.streamIDError id = none ∧ c.Missing id

theorem acceptStream_answers (stream : QUICStream) (id offset : Nat) (data : Bytes) (fin : Bool)
    (within : later.Within r) :
    Answers excused r (c.acceptStream stream id offset data fin later) := by
  unfold acceptStream
  split
  · exact answers_stop _ _
  split
  · exact answers_stop _ _
  · exact answers_stop _ _
  · exact answers_some within

theorem handleStream_answers (bits : Nat) (r : QUICReader) :
    Answers (c.Strays (.stream bits) r) r (c.handleStream bits r) := by
  refine answers_decoded c fun ⟨id, offset, data, later⟩ read => ?_
  refine answers_guarded c fun known => answers_guarded c fun may => ?_
  refine answers_withStream (fun missing => ⟨id, ?_, ?_, known, missing⟩) fun c' s =>
    acceptStream_answers c' s id offset data _ (readStreamFrame_reads bits r _ read)
  · simp [namedStream, read]
  · simpa [mayName] using may

theorem acceptReset_answers (stream : QUICStream) (id code finalSize : Nat) (within : later.Within r) :
    Answers excused r (c.acceptReset stream id code finalSize later) := by
  unfold acceptReset
  split_ifs
  · exact answers_stop _ _
  · exact answers_stop _ _
  split
  · exact answers_stop _ _
  · exact answers_some within

theorem handleResetStream_answers (r : QUICReader) : Answers (c.Strays .resetStream r) r (c.handleResetStream r) := by
  refine answers_decoded c fun ⟨id, code, finalSize, later⟩ read => ?_
  refine answers_guarded c fun known => answers_guarded c fun may => ?_
  refine answers_withStream (fun missing => ⟨id, ?_, ?_, known, missing⟩) fun c' s =>
    acceptReset_answers c' s id code finalSize (readTriple_reads r _ read)
  · simp [namedStream, read]
  · simpa [mayName] using may

theorem handleStopSending_answers (r : QUICReader) : Answers (c.Strays .stopSending r) r (c.handleStopSending r) := by
  refine answers_decoded c fun ⟨id, code, later⟩ read => ?_
  refine answers_guarded c fun known => answers_guarded c fun may => ?_
  refine answers_withStream (fun missing => ⟨id, ?_, ?_, known, missing⟩) fun c' s =>
    answers_some (readPair_reads r _ read)
  · simp [namedStream, read]
  · simpa [mayName] using may

theorem handleMaxData_answers (r : QUICReader) : Answers excused r (c.handleMaxData r) := by
  refine answers_decoded c fun ⟨limit, later⟩ read => ?_
  dsimp only
  split_ifs
  all_goals exact answers_some (varint_within read)

theorem handleMaxStreamData_answers (r : QUICReader) : Answers excused r (c.handleMaxStreamData r) :=
  answers_decoded c fun ⟨_, _, _⟩ read => answers_guarded c fun _ =>
    answers_some (readPair_reads r _ read)

theorem handleNewConnectionID_answers (r : QUICReader) : Answers excused r (c.handleNewConnectionID r) :=
  answers_decoded c fun _ read => answers_some (readNewConnectionID_reads r _ read)

theorem handleDatagram_answers (hasLength : Bool) (r : QUICReader) : Answers excused r (c.handleDatagram hasLength r) :=
  answers_guarded c fun _ => answers_decoded c fun ⟨_, _⟩ read => answers_guarded c fun _ =>
    answers_some (readDatagram_reads hasLength r _ read)

theorem handleConnectionClose_answers (application : Bool) (nowMs : Nat) (r : QUICReader) :
    Answers excused r (c.handleConnectionClose application nowMs r) :=
  answers_decoded c fun _ _ => answers_none (.inr rfl)

theorem handleAck_answers (hasECN : Bool) (level : QUICLevel) (nowMs : Nat) (r : QUICReader) :
    Answers excused r (c.handleAck hasECN level nowMs r) :=
  answers_decoded c fun ⟨_, _, _⟩ read => answers_guarded c fun _ =>
    answers_some (quicReadAckFrame_reads r hasECN _ read)

variable (P : Primitives) (c : QUICConnection)

theorem applyTLSProgress_closed (failed : (c.applyTLSProgress P).2 = false) :
    (c.applyTLSProgress P).1.status.isClosing = true := by
  unfold applyTLSProgress at failed ⊢
  cases alert : c.tls.alert with
  | some _ => exact close_isClosing c _ _ _
  | none =>
    rw [alert] at failed
    dsimp only at failed ⊢
    generalize installAll P _ _ = outcome at failed ⊢
    obtain ⟨c', installed⟩ := outcome
    cases installed with
    | false => exact fail_isClosing c' _
    | true =>
      dsimp only at failed
      split_ifs at failed

theorem handleCrypto_answers (level : QUICLevel) (r : QUICReader) : Answers excused r (c.handleCrypto P level r) := by
  refine answers_decoded c fun ⟨offset, data, later⟩ read => ?_
  have within := readCrypto_reads r _ read
  dsimp only
  split
  · exact answers_stop c _
  · exact answers_stop c _
  next stream accepted =>
    split_ifs
    · split
      next c' failed =>
        refine answers_none (.inr ?_)
        have closed := applyTLSProgress_closed P _ (by rw [failed])
        rwa [failed] at closed
      next c' done => exact answers_some within
    · exact answers_some within

theorem processFrame_answers (type : FrameType) (level : QUICLevel) (nowMs : Nat) (r : QUICReader) :
    Answers (c.Strays type r) r (c.processFrame P type level nowMs r) := by
  cases type with
  | padding => exact answers_some (by simp [QUICReader.Within])
  | ping => exact answers_some (le_refl _)
  | ack | ackECN => exact handleAck_answers c _ level nowMs r
  | crypto => exact handleCrypto_answers P c level r
  | resetStream => exact handleResetStream_answers c r
  | stopSending => exact handleStopSending_answers c r
  | newToken => exact answers_stop c _
  | stream bits => exact handleStream_answers c bits r
  | maxData => exact handleMaxData_answers c r
  | maxStreamData => exact handleMaxStreamData_answers c r
  | maxStreamsBidi | maxStreamsUni | streamsBlockedBidi | streamsBlockedUni =>
    apply answers_decoded c
    intro fields read
    cases fields
    exact answers_some (readStreamLimit_reads r _ read)
  | dataBlocked | retireConnectionID =>
    apply answers_decoded c
    intro fields read
    cases fields
    exact answers_some (varint_within read)
  | streamDataBlocked =>
    apply answers_decoded c
    intro fields read
    rcases fields with ⟨id, limit, later⟩
    exact answers_guarded c fun _ => answers_some (readPair_reads r _ read)
  | newConnectionID => exact handleNewConnectionID_answers c r
  | pathChallenge =>
    apply answers_decoded c
    intro fields read
    cases fields
    exact answers_some (take_within read)
  | pathResponse => exact answers_decoded c fun _ read => answers_some (skip_within read)
  | connectionCloseTransport | connectionCloseApplication => exact handleConnectionClose_answers c _ nowMs r
  | handshakeDone => exact answers_stop c _
  | datagram | datagramWithLength => exact handleDatagram_answers c _ r

theorem checked_missing {c : QUICConnection} {forbidden : Bool} (known : c.streamIDError id = none)
    (allowed : forbidden = false) (missing : c.Missing id) (act : QUICConnection → QUICStream → Handled) :
    c.checkStreamID id (c.guarded (if forbidden then some .streamStateError else none)
      (c.withStream id act)) = (c, none) := by
  simp [checkStreamID, guarded, known, allowed, withStream, openOrFind_missing missing]

theorem processFrame_strays {c : QUICConnection} {type : FrameType}
    (strays : c.Strays type r) (level : QUICLevel) (nowMs : Nat) :
    c.processFrame P type level nowMs r = (c, none) := by
  obtain ⟨id, named, may, known, missing⟩ := strays
  unfold namedStream at named
  split at named
  next bits =>
    obtain ⟨⟨number, offset, data, later⟩, read, rfl⟩ := map_eq_some_iff.mp named
    simp only [processFrame, handleStream, decoded, read]
    exact checked_missing known (by simpa [mayName] using may) missing _
  next =>
    obtain ⟨⟨number, code, finalSize, later⟩, read, rfl⟩ := map_eq_some_iff.mp named
    simp only [processFrame, handleResetStream, decoded, read]
    exact checked_missing known (by simpa [mayName] using may) missing _
  next =>
    obtain ⟨⟨number, code, later⟩, read, rfl⟩ := map_eq_some_iff.mp named
    simp only [processFrame, handleStopSending, decoded, read]
    exact checked_missing known (by simpa [mayName] using may) missing _
  next => cases named

def NextStrays (c : QUICConnection) (level : QUICLevel) (r : QUICReader) : Prop :=
  ∃ type eliciting later, readFrameType level r = .ok (type, eliciting, later) ∧ c.Strays type later

variable {level : QUICLevel}

theorem readFrameType_shrinks {type : FrameType}
    {eliciting : Bool} (read : readFrameType level r = .ok (type, eliciting, later)) :
    later.remaining < r.remaining := by
  unfold readFrameType at read
  split at read
  · cases read
  next code after taken =>
    split_ifs at read
    split at read
    · cases read
    · cases read
      exact varint_shrinks taken

theorem nextFrame_some {c c' : QUICConnection} {nowMs : Nat}
    (went : (c.nextFrame P level nowMs r).1 = (c', some later)) :
    later.remaining < r.remaining := by
  unfold nextFrame at went
  split at went
  · cases went
  next type eliciting after read =>
    dsimp only at went
    have onward := (processFrame_answers P c type level nowMs after).onward later (by rw [went])
    exact lt_of_le_of_lt onward (readFrameType_shrinks read)

theorem nextFrame_none {c c' : QUICConnection} {nowMs : Nat} (stopped : (c.nextFrame P level nowMs r).1 = (c', none)) :
    c.NextStrays level r ∨ c'.status.isClosing = true := by
  unfold nextFrame at stopped
  split at stopped
  next error read =>
    cases stopped
    exact .inr (c.fail_isClosing error)
  next type eliciting after read =>
    dsimp only at stopped
    have closed := (processFrame_answers P c type level nowMs after).closed (by rw [stopped])
    rw [stopped] at closed
    exact closed.imp_left fun strays => ⟨type, eliciting, after, read, strays⟩

theorem nextFrame_strays {c : QUICConnection} (strays : c.NextStrays level r) (nowMs : Nat) :
    (c.nextFrame P level nowMs r).1 = (c, none) := by
  obtain ⟨type, eliciting, later, read, strays⟩ := strays
  rw [nextFrame, read]
  exact processFrame_strays P strays level nowMs

def GoesOn (level : QUICLevel) (nowMs : Nat) (now next : QUICConnection × QUICReader) : Prop :=
  now.2.isEmpty = false ∧ (now.1.nextFrame P level nowMs now.2).1 = (next.1, some next.2)

def ComesTo (level : QUICLevel) (nowMs : Nat) : QUICConnection × QUICReader →
    QUICConnection × QUICReader → Prop := Relation.ReflTransGen (GoesOn P level nowMs)

theorem ComesTo.moves {nowMs : Nat} {now next : QUICConnection × QUICReader}
    (turn : ComesTo P level nowMs now next) : Moves now.1 next.1 := by
  induction turn with
  | refl => exact .refl _
  | @tail middle last _ step ih =>
    have moves := moves_nextFrame P middle.1 level nowMs middle.2
    rw [step.2] at moves
    exact ih.trans moves

/-- The loop comes, with the connection open, to a frame for a stream that is not there. -/
def GivesUp (level : QUICLevel) (nowMs : Nat) (c : QUICConnection) (r : QUICReader) : Prop :=
  ∃ c' later, ComesTo P level nowMs (c, r) (c', later) ∧ c'.status.isClosing = false ∧
    c'.NextStrays level later

variable {P} {c c' : QUICConnection} {level : QUICLevel} {nowMs : Nat} {later : QUICReader}

theorem givesUp_last (last : ∀ c' later, (c.nextFrame P level nowMs r).1 = (c', some later) →
    r.isEmpty = true) : GivesUp P level nowMs c r ↔ c.status.isClosing = false ∧ c.NextStrays level r := by
  constructor
  · rintro ⟨c', later, turn, opened, strays⟩
    rcases Relation.ReflTransGen.cases_head turn with same | ⟨⟨c1, r1⟩, step, -⟩
    · cases same
      exact ⟨opened, strays⟩
    · exact absurd (last _ _ step.2) (by simp [step.1])
  · rintro ⟨opened, strays⟩
    exact ⟨c, r, .refl, opened, strays⟩

theorem givesUp_next (more : r.isEmpty = false) (went : (c.nextFrame P level nowMs r).1 = (c', some later)) :
    GivesUp P level nowMs c r ↔ GivesUp P level nowMs c' later := by
  constructor
  · rintro ⟨final, rest, turn, opened, strays⟩
    rcases Relation.ReflTransGen.cases_head turn with same | ⟨⟨c1, r1⟩, step, onward⟩
    · cases same
      rw [nextFrame_strays P strays nowMs] at went
      cases went
    · obtain ⟨rfl, same⟩ := Prod.mk.inj (went.symm.trans step.2)
      cases same
      exact ⟨final, rest, onward, opened, strays⟩
  · rintro ⟨final, rest, turn, opened, strays⟩
    exact ⟨final, rest, .head ⟨more, went⟩ turn, opened, strays⟩

theorem not_nextStrays_of_isEmpty (empty : r.isEmpty = true) : ¬c.NextStrays level r := by
  rintro ⟨type, eliciting, later, read, -⟩
  have shrinks := readFrameType_shrinks read
  have none : r.remaining = 0 := by simpa [remaining, isEmpty] using empty
  omega

/-- The loop returns nothing with the connection open just when it gives the packet up. The fuel is
enough when there is more of it than there are bytes. -/
theorem frameLoop_none_iff (fuel : Nat) (ackEliciting : Bool) (enough : r.remaining < fuel) :
    ((frameLoop P level nowMs fuel c ackEliciting r).2 = none ∧
        (frameLoop P level nowMs fuel c ackEliciting r).1.status.isClosing = false) ↔
      GivesUp P level nowMs c r := by
  induction fuel generalizing c ackEliciting r with
  | zero => exact absurd enough (not_lt_zero _)
  | succ fuel ih =>
    unfold frameLoop
    split_ifs with empty
    · rw [givesUp_last fun _ _ _ => empty]
      simp [not_nextStrays_of_isEmpty empty]
    split
    next c1 eliciting stopped =>
      have none : (c.nextFrame P level nowMs r).1 = (c1, none) := by rw [stopped]
      rw [givesUp_last fun _ _ went => by rw [none] at went; cases went]
      constructor
      · rintro ⟨-, opened⟩
        have strays := (nextFrame_none P none).resolve_right (by simp [opened])
        obtain ⟨rfl, -⟩ := Prod.mk.inj (none.symm.trans (nextFrame_strays P strays nowMs))
        exact ⟨opened, strays⟩
      · rintro ⟨opened, strays⟩
        obtain ⟨rfl, -⟩ := Prod.mk.inj (none.symm.trans (nextFrame_strays P strays nowMs))
        exact ⟨rfl, opened⟩
    next c1 r1 eliciting went =>
      have some : (c.nextFrame P level nowMs r).1 = (c1, some r1) := by rw [went]
      rw [givesUp_next (by simpa using empty) some]
      exact ih _ (by have shrinks := nextFrame_some P some; omega)

theorem processFrames_none_iff (payload : Bytes) : ((c.processFrames P payload level nowMs).2 = none ∧
      (c.processFrames P payload level nowMs).1.status.isClosing = false) ↔
    GivesUp P level nowMs c ⟨payload, 0⟩ :=
  frameLoop_none_iff _ false (lt_succ_self _)

end
end QUICConnection
end AvianCore.Quic
