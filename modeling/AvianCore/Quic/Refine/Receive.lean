import AvianCore.Quic.Meeting
import AvianCore.Quic.Refine.Handshake

/-!
Receiving in the ledger: every frame is a run of effects, and a packet that is not a
duplicate is one transaction around the effects of its frames.
-/

namespace AvianCore.Quic
open AvianCore.Lib Ledger List

namespace QUICConnection
variable (c : QUICConnection)

theorem moves_stop (error : QUICError) : Moves c (c.stop error).1 := moves_fail c error

section
variable {c} {R : QUICConnection → Prop} (stops : ∀ error, R (c.stop error).1)
include stops

theorem decoded_ends {α : Type} (fields : Option α) (act : α → Handled)
    (each : ∀ value, fields = some value → R (act value).1) : R (c.decoded fields act).1 := by
  cases fields with
  | none => exact stops _
  | some value => exact each value rfl

theorem guarded_ends (error : Option QUICError) (act : Handled) (goes : error = none → R act.1) :
    R (c.guarded error act).1 := by
  cases error with
  | none => exact goes rfl
  | some error => exact stops error

end

theorem moves_checkStreamID (id : Nat) (act : Handled) (goes : Moves c act.1) : Moves c (c.checkStreamID id act).1 :=
  guarded_ends (moves_stop c) _ act fun _ => goes

variable (unidirectional : Bool)

theorem setHighestIncoming_same : c.setHighestIncoming unidirectional (c.highestIncoming unidirectional) = c := by
  cases unidirectional <;> rfl

theorem highestIncoming_set (highest : Highest) :
    (c.setHighestIncoming unidirectional highest).highestIncoming unidirectional = highest := by
  cases unidirectional <;> rfl

theorem setHighestIncoming_set (first last : Highest) :
    (c.setHighestIncoming unidirectional first).setHighestIncoming unidirectional last =
      c.setHighestIncoming unidirectional last := by
  cases unidirectional <;> rfl

variable (unidirectional : Bool)

theorem openIncoming_setHighest (highest : Highest) (count i : Nat) (c : QUICConnection) (created : Option QUICStream) :
    openIncoming unidirectional count i (c.setHighestIncoming unidirectional highest) created =
      ((openIncoming unidirectional count i c created).1.setHighestIncoming unidirectional highest,
        (openIncoming unidirectional count i c created).2) := by
  induction count generalizing i c created with
  | zero => rfl
  | succ count ih =>
    unfold openIncoming
    extract_lets newID before stream
    rw [← ih]
    cases unidirectional <;> rfl

/-- One step of the loop of `openIncoming`, with the mark moved at once. -/
def openNext (c : QUICConnection) (next : Highest) : QUICConnection :=
  ({ c with
    streams := c.streams.insert (QUICStreamKind.id next.val.toNat false unidirectional)
      (c.incomingStream unidirectional) } : QUICConnection).setHighestIncoming unidirectional next

theorem openIncoming_steps {R : QUICConnection → QUICConnection → Prop} (refl : ∀ c, R c c)
    (trans : ∀ {c c' c''}, R c c' → R c' c'' → R c c'') {I : QUICConnection → Prop} {last : Highest}
    (one : ∀ c next, next.val = (c.highestIncoming unidirectional).val + 1 → next.val ≤ last.val → I c →
      R c (c.openNext unidirectional next) ∧ I (c.openNext unidirectional next))
    (count : Nat) (c : QUICConnection) (created : Option QUICStream) (i : Nat)
    (from_ : i = ((c.highestIncoming unidirectional).val + 1).toNat)
    (reached : last.val = (c.highestIncoming unidirectional).val + count) (holds : I c) :
    R c ((openIncoming unidirectional count i c created).1.setHighestIncoming unidirectional last) := by
  induction count generalizing c created i with
  | zero =>
    have same : last = c.highestIncoming unidirectional := Subtype.ext (by simpa using reached)
    rw [same]
    change R c (c.setHighestIncoming unidirectional (c.highestIncoming unidirectional))
    rw [setHighestIncoming_same]
    exact refl c
  | succ count ih =>
    have property := (c.highestIncoming unidirectional).property
    let next : Highest := ⟨(c.highestIncoming unidirectional).val + 1, by omega⟩
    have value : next.val = (c.highestIncoming unidirectional).val + 1 := rfl
    obtain ⟨opened, still⟩ := one c next rfl (by omega) holds
    have index : next.val.toNat = i := from_.symm
    unfold openNext at opened still
    rw [index] at opened still
    unfold openIncoming
    extract_lets newID stream
    have rest := ih _ (some stream) (i + 1) (by rw [highestIncoming_set]; omega)
      (by rw [highestIncoming_set]; omega) still
    rw [openIncoming_setHighest, setHighestIncoming_set] at rest
    exact trans opened rest

variable (c : QUICConnection)

theorem moves_openNext (next : Highest) (follows : next.val = (c.highestIncoming unidirectional).val + 1) :
    Moves c (c.openNext unidirectional next) := by
  obtain ⟨value, atLeast⟩ := next
  simp only at follows
  subst follows
  apply Moves.effect
  intro handed
  have effect := Ledger.Effect.openIncoming (c.ledger handed) unidirectional
  cases unidirectional <;> exact effect

theorem openIncoming_lookup (index count i : Nat) (c : QUICConnection) (created : Option QUICStream)
    (covered : (i ≤ index ∧ index < i + count) ∨ c.streams.lookup (QUICStreamKind.id index false unidirectional) =
        some (c.incomingStream unidirectional)) :
    (openIncoming unidirectional count i c created).1.streams.lookup (QUICStreamKind.id index false unidirectional) =
      some (c.incomingStream unidirectional) := by
  induction count generalizing i c created with
  | zero =>
    rcases covered with inside | there
    · omega
    · exact there
  | succ count ih =>
    unfold openIncoming
    extract_lets newID stream
    have same : ({ c with streams := c.streams.insert newID stream } :
        QUICConnection).incomingStream unidirectional = c.incomingStream unidirectional := rfl
    rw [← same]
    apply ih
    rw [same]
    by_cases here : QUICStreamKind.id index false unidirectional = newID
    · rw [here]
      exact .inr (AList.lookup_insert _)
    rcases covered with inside | there
    · refine .inl ⟨?_, by omega⟩
      have apart : index ≠ i := fun equal => here (by simp only [newID, equal])
      omega
    · exact .inr (by rw [AList.lookup_insert_ne here]; exact there)

theorem openOrFind_spec (id : Nat) : Moves c (c.openOrFind id).1 ∧
    ∀ s, (c.openOrFind id).2 = some s → (c.openOrFind id).1.streams.lookup id = some s := by
  unfold openOrFind
  split
  next existing found =>
    refine ⟨Moves.refl c, fun s same => ?_⟩
    simp only [Option.some.injEq] at same
    exact same ▸ found
  next absent =>
    split
    · exact ⟨Moves.refl c, by simp⟩
    next client =>
      extract_lets unidirectional index highest
      split
      · exact ⟨Moves.refl c, fun s same => same⟩
      next above =>
        have property := (c.highestIncoming unidirectional).property
        have below : (c.highestIncoming unidirectional).val < index := not_le.mp above
        have named : QUICStreamKind.id index false unidirectional = id :=
          QUICStreamKind.id_index id (Bool.not_eq_true _ ▸ client)
        have moves := openIncoming_steps (R := Moves) (I := fun _ => True) unidirectional Moves.refl Moves.trans
          (fun c next follows _ _ => ⟨moves_openNext unidirectional c next follows, trivial⟩)
          (index - highest).toNat c none (highest + 1).toNat rfl
          (show (⟨index, by omega⟩ : Highest).val = _ by simp only [highest]; omega) trivial
        have there := openIncoming_lookup unidirectional index (index - highest).toNat
          (highest + 1).toNat c none (.inl (by simp only [highest]; omega))
        rw [named] at there
        refine ⟨moves, fun s same => ?_⟩
        have kept : ∀ (c : QUICConnection) (last : Highest),
            (c.setHighestIncoming unidirectional last).streams = c.streams := by
          intro c last
          unfold setHighestIncoming
          split_ifs <;> rfl
        simp only [kept, there, Option.some_or, Option.some.injEq] at same ⊢
        exact same

theorem moves_withStream (id : Nat) (act : QUICConnection → QUICStream → Handled)
    (each : ∀ c' s, c'.streams.lookup id = some s → Moves c' (act c' s).1) :
    Moves c (c.withStream id act).1 := by
  obtain ⟨moves, there⟩ := openOrFind_spec c id
  unfold withStream
  split
  next opened => simpa [opened] using moves
  next s opened =>
    rw [opened] at moves there
    exact moves.trans (each _ s (there s rfl))

variable {s : QUICStream} {«end» : Nat}

theorem countGrowth_some {c c1 : QUICConnection} (counted : c.countGrowth s «end» = some c1) :
    («end» - s.receive.highWater = 0 ∧ c1 = c) ∨ («end» - s.receive.highWater ≠ 0 ∧
        addWrapping c.receivedBytes («end» - s.receive.highWater) ≤ c.receiveLimit ∧
        c1 = { c.mark (.credit c.receivedBytes («end» - s.receive.highWater)) with
          receivedBytes := addWrapping c.receivedBytes («end» - s.receive.highWater) }) := by
  unfold countGrowth at counted
  split_ifs at counted with grows
  · extract_lets growth at counted
    split_ifs at counted with exceeds
    simp only [Option.some.injEq] at counted
    exact .inr ⟨by omega, not_lt.mp exceeds, counted.symm⟩
  · simp only [Option.some.injEq] at counted
    exact .inl ⟨by omega, counted.symm⟩

theorem countGrowth_spec {c c1 : QUICConnection} (counted : c.countGrowth s «end» = some c1) (handed : Nat) :
    c1.ledger handed = (c.ledger handed).charge («end» - s.receive.highWater) ∧
      (c.ledger handed).Affords («end» - s.receive.highWater) ∧ c1.streams = c.streams := by
  rcases countGrowth_some counted with ⟨nothing, rfl⟩ | ⟨positive, affords, rfl⟩
  · exact ⟨by simp [charge, nothing], .inl nothing, rfl⟩
  refine ⟨?_, .inr affords, rfl⟩
  unfold charge
  rw [if_neg positive]
  rfl

theorem ledger_fail_countGrowth {c c1 : QUICConnection} (counted : c.countGrowth s «end» = some c1)
    (error : QUICError) (handed : Nat) :
    (c1.fail error).ledger handed = ((c.fail error).ledger handed).charge («end» - s.receive.highWater) := by
  rcases countGrowth_some counted with ⟨nothing, rfl⟩ | ⟨positive, -, rfl⟩
  · simp [charge, nothing]
  unfold charge fail close
  rw [if_neg positive]
  by_cases closing : c.status.isClosing
  · simp only [mark, closing, if_true]
    rfl
  · simp only [mark, closing]
    rfl

theorem moves_countGrowth_fail {c c1 : QUICConnection} (counted : c.countGrowth s «end» = some c1) (error : QUICError) :
    Moves c (c1.fail error) := by
  refine (moves_fail c error).trans (Moves.effect fun handed => ?_)
  rw [ledger_fail_countGrowth counted]
  exact Ledger.Effect.overcharge _ _ (close_isClosing c _ _ _)

theorem moves_announceData (id : Nat) (receive : QUICReceiveStream) : Moves c (c.announceData id receive) := by
  unfold announceData
  extract_lets c1
  have readable : Moves c c1 := by
    simp only [c1]
    split_ifs
    · exact .refl c
    · exact moves_append c _ rfl
  split_ifs
  · exact readable.trans (moves_append c1 _ rfl)
  · exact readable

variable (s : QUICStream)

theorem moves_acceptStream (id offset : Nat) (data : Bytes) (fin : Bool) (r : QUICReader)
    (live : c.streams.lookup id = some s) :
    Moves c (c.acceptStream s id offset data fin r).1 := by
  unfold acceptStream
  split
  · exact moves_stop c _
  next c1 counted =>
    split
    · exact moves_countGrowth_fail counted _
    · exact moves_countGrowth_fail counted _
    next receive accepted =>
      extract_lets c2
      refine Moves.trans ?_ (moves_announceData c2 id receive)
      apply Moves.effect
      intro handed
      obtain ⟨charged, affords, streams⟩ := countGrowth_spec counted handed
      obtain ⟨within, highWater, limit, announced⟩ := QUICReceiveStream.accept_ok accepted
      have still : c1.streams.lookup id = some s := streams ▸ live
      rw [ledger_modifyStream c1 id _ s still, charged]
      have flow : c1.toFlow = ((c.ledger handed).charge _).flow := congrArg flow charged
      rw [flow]
      refine Ledger.Effect.data (c.ledger handed) id s { s with receive := receive } _ live affords
        ?_ ?_ limit announced rfl
      · simp only [highWater]
        omega
      · simp only [highWater]
        omega

theorem moves_handleStream (bits : Nat) (r : QUICReader) : Moves c (c.handleStream bits r).1 := by
  apply decoded_ends (moves_stop c) _ _
  intro value _
  refine moves_checkStreamID c _ _ (guarded_ends (moves_stop c) _ _ fun _ => ?_)
  exact moves_withStream c _ _ fun c s live => moves_acceptStream c s _ _ _ _ _ live

theorem moves_acceptReset (id code finalSize : Nat) (r : QUICReader) (live : c.streams.lookup id = some s) :
    Moves c (c.acceptReset s id code finalSize r).1 := by
  unfold acceptReset
  split
  · exact moves_stop c _
  split
  · exact moves_stop c _
  next enough =>
    split
    · exact moves_stop c _
    next c1 counted =>
      extract_lets c2 c3
      refine Moves.trans ?_ (moves_append c3 _ rfl)
      apply Moves.effect
      intro handed
      obtain ⟨charged, affords, streams⟩ := countGrowth_spec counted handed
      have still : c2.streams.lookup id = some s := by
        change c1.streams.lookup id = some s
        exact streams ▸ live
      have marked : c2.ledger handed = (c1.ledger handed).mark (.resetReceived s finalSize) := rfl
      have flow : c2.toFlow = ((c.ledger handed).charge _).flow := congrArg flow charged
      rw [ledger_modifyStream c2 id _ s still, marked, charged, flow]
      have reach : max s.receive.highWater finalSize = finalSize := max_eq_right (not_lt.mp enough)
      exact Ledger.Effect.resetReceived (c.ledger handed) id s _ finalSize live (not_lt.mp enough)
        affords reach rfl rfl rfl

theorem moves_handleResetStream (r : QUICReader) : Moves c (c.handleResetStream r).1 := by
  apply decoded_ends (moves_stop c) _ _
  intro value _
  refine moves_checkStreamID c _ _ (guarded_ends (moves_stop c) _ _ fun _ => ?_)
  exact moves_withStream c _ _ fun c s live => moves_acceptReset c s _ _ _ _ live

theorem moves_acceptStop (id code : Nat) (r : QUICReader) : Moves c (c.acceptStop s id code r).1 := by
  unfold acceptStop
  extract_lets c1 c2
  have noted : Moves c c1 := moves_quiet c id _ fun s => .quiet s _ rfl rfl rfl rfl rfl rfl
  have answered : Moves c1 c2 := by
    simp only [c2]
    split_ifs
    · exact moves_modify_mark_any c1 id _ fun s => .reset s code
    · exact .refl c1
  exact (noted.trans answered).trans (moves_append c2 _ rfl)

theorem moves_handleStopSending (r : QUICReader) : Moves c (c.handleStopSending r).1 := by
  apply decoded_ends (moves_stop c) _ _
  intro value _
  refine moves_checkStreamID c _ _ (guarded_ends (moves_stop c) _ _ fun _ => ?_)
  exact moves_withStream c _ _ fun c s _ => moves_acceptStop c s _ _ _

theorem moves_handleMaxData (r : QUICReader) : Moves c (c.handleMaxData r).1 := by
  refine decoded_ends (moves_stop c) _ _ fun ⟨limit, later⟩ read => ?_
  have small := QUICReader.varint_lt read
  simp only
  split_ifs with raises
  · refine Moves.trans (Moves.effect fun handed => ?_) (moves_append _ _ rfl)
    have effect := Ledger.Effect.maxData (c.ledger handed) limit small
    rw [max_eq_right (show (c.ledger handed).flow.sendLimit ≤ limit from le_of_lt raises)] at effect
    exact effect
  apply Moves.effect
  intro handed
  have effect := Ledger.Effect.maxData (c.ledger handed) limit small
  rw [max_eq_left (show limit ≤ (c.ledger handed).flow.sendLimit from not_lt.mp raises)] at effect
  exact effect

theorem moves_raiseStreamLimit (id limit : Nat) (granted : .maxStreamData id limit ∈ c.history) :
    Moves c (c.raiseStreamLimit id limit) := by
  unfold raiseStreamLimit
  split
  · exact .refl c
  next s live =>
    split_ifs with raises
    · exact (moves_modify_mark c id _ s live (.raise s limit raises.le granted)).trans (moves_noteWritable _ id)
    · exact .refl c

theorem moves_handleMaxStreamData (r : QUICReader) : Moves c (c.handleMaxStreamData r).1 := by
  refine decoded_ends (moves_stop c) _ _ fun ⟨id, limit, later⟩ _ => moves_checkStreamID c _ _ ?_
  have noted : Moves c (c.mark (.maxStreamData id limit)) :=
    Moves.effect fun handed => Ledger.Effect.maxStreamData (c.ledger handed) id limit
  exact noted.trans (moves_raiseStreamLimit _ id limit mem_cons_self)

theorem moves_handleConnectionClose (application : Bool) (nowMs : Nat) (r : QUICReader) :
    Moves c (c.handleConnectionClose application nowMs r).1 := by
  refine decoded_ends (moves_stop c) _ _ fun code _ => Moves.effect fun handed => ?_
  have effect := Ledger.Effect.peerClose (c.ledger handed)
  simpa [ledger, append, mark, countP_append, QUICEvent.isClosed, ← add_assoc] using effect

theorem moves_handleDatagram (hasLength : Bool) (r : QUICReader) : Moves c (c.handleDatagram hasLength r).1 := by
  refine guarded_ends (moves_stop c) _ _ fun _ => decoded_ends (moves_stop c) _ _ fun value _ => ?_
  apply guarded_ends (moves_stop c) _ _
  intro _
  exact Moves.trans (Moves.silent fun _ => rfl) (moves_append _ _ rfl)

theorem moves_settle (level : QUICLevel) (result : QUICLossDetection.Result) (space : QUICPacketSpace)
    (recovery : QUICRecovery) (settles : QUICLossDetection.Settles (c.spaces.get level) result space) :
    Moves c { c with
      spaces := c.spaces.set level space
      recovery := recovery
      history := result.acked.map (Mark.acked level) ++ result.lost.map (Mark.lost level) ++ c.history } := by
  apply Moves.effect
  intro handed
  have unsettled := ledger_outstanding c handed level
  have effect := Ledger.Effect.settle (c.ledger handed) level result.acked result.lost space.unsettled
    (unsettled ▸ settles.acked) (unsettled ▸ settles.lost) (unsettled ▸ settles.rest)
  rw [ledger_acks, ← settles.acks] at effect
  simpa only [ledger, PerLevel.map_set] using effect

theorem moves_acceptAck (ranges : List PacketRange) (largest delayRaw : Nat) (level : QUICLevel) (nowMs : Nat) :
    Moves c (c.acceptAck ranges largest delayRaw level nowMs) := by
  unfold acceptAck
  extract_lets exponent delay
  have settles := QUICLossDetection.onAck_settles (c.spaces.get level) c.recovery ranges largest delay nowMs
  split
  next result space recovery done =>
    rw [done] at settles
    extract_lets c1 c2 c3
    have settled : Moves c c1 := moves_settle c level result space recovery settles
    have acked : Moves c1 c2 := by
      refine moves_foldl _ (result.acked.map (Mark.acked level)) _ (fun c logged packet member => ?_) c1 ?_
      · exact moves_onPacketAcked c packet level (logged (mem_map_of_mem member))
      · exact List.Subset.trans (subset_append_left _ _) (subset_append_left _ _)
    have lost : Moves c2 c3 := by
      refine moves_foldl _ (result.lost.map (Mark.lost level)) _ (fun c logged packet member => ?_) c2 ?_
      · exact moves_onPacketLost c packet level (logged (mem_map_of_mem member))
      · refine List.Subset.trans ?_ acked.history.subset
        exact List.Subset.trans (subset_append_right _ _) (subset_append_left _ _)
    apply ((settled.trans acked).trans lost).trans
    split_ifs
    · exact Moves.silent fun _ => rfl
    · exact .refl c3

theorem moves_handleAck (hasECN : Bool) (level : QUICLevel) (nowMs : Nat) (r : QUICReader) :
    Moves c (c.handleAck hasECN level nowMs r).1 := by
  refine decoded_ends (moves_stop c) _ _ fun value _ => guarded_ends (moves_stop c) _ _ fun _ => ?_
  exact moves_acceptAck c _ _ _ level nowMs

section
variable (P : Primitives)

variable (c : QUICConnection) (level : QUICLevel)

theorem moves_handleCrypto (r : QUICReader) : Moves c (c.handleCrypto P level r).1 := by
  refine decoded_ends (moves_stop c) _ _ fun ⟨offset, data, later⟩ _ => ?_
  simp only
  split
  · exact moves_stop c _
  · exact moves_stop c _
  next stream _ =>
    have stored : Moves c { c with cryptoReceive := c.cryptoReceive.set level stream } := Moves.silent fun _ => rfl
    split_ifs
    · have fed := moves_feedTLS P { c with cryptoReceive := c.cryptoReceive.set level stream } level
      have progress := (stored.trans fed).trans (moves_applyTLSProgress P _)
      split
      next stopped => simpa [stopped] using progress
      next went => simpa [went] using progress
    · exact stored

theorem moves_processFrame (type : FrameType) (level : QUICLevel) (nowMs : Nat) (r : QUICReader) :
    Moves c (c.processFrame P type level nowMs r).1 := by
  cases type with
  | padding | ping => exact .refl c
  | ack => exact moves_handleAck c false level nowMs r
  | ackECN => exact moves_handleAck c true level nowMs r
  | crypto => exact moves_handleCrypto P c level r
  | resetStream => exact moves_handleResetStream c r
  | stopSending => exact moves_handleStopSending c r
  | newToken => exact moves_stop c _
  | stream bits => exact moves_handleStream c bits r
  | maxData => exact moves_handleMaxData c r
  | maxStreamData => exact moves_handleMaxStreamData c r
  | maxStreamsBidi => exact decoded_ends (moves_stop c) _ _ fun _ _ => Moves.silent fun _ => rfl
  | maxStreamsUni | dataBlocked => exact decoded_ends (moves_stop c) _ _ fun _ _ => Moves.silent fun _ => rfl
  | streamDataBlocked => exact decoded_ends (moves_stop c) _ _ fun _ _ => moves_checkStreamID c _ _ (Moves.refl c)
  | streamsBlockedBidi | streamsBlockedUni => exact decoded_ends (moves_stop c) _ _ fun _ _ => Moves.silent fun _ => rfl
  | newConnectionID | retireConnectionID => exact decoded_ends (moves_stop c) _ _ fun _ _ => Moves.refl c
  | pathChallenge => exact decoded_ends (moves_stop c) _ _ fun _ _ => Moves.silent fun _ => rfl
  | pathResponse => exact decoded_ends (moves_stop c) _ _ fun _ _ => Moves.refl c
  | connectionCloseTransport => exact moves_handleConnectionClose c false nowMs r
  | connectionCloseApplication => exact moves_handleConnectionClose c true nowMs r
  | handshakeDone => exact moves_stop c _
  | datagram => exact moves_handleDatagram c false r
  | datagramWithLength => exact moves_handleDatagram c true r

theorem moves_carries : Carries Moves where
  refl := Moves.refl
  trans := Moves.trans
  started _ := Moves.silent fun _ => rfl
  counted c n := Moves.effect fun handed => Ledger.Effect.received (c.ledger handed) n
  active _ _ := Moves.silent fun _ => rfl

theorem moves_nextFrame (nowMs : Nat) (r : QUICReader) : Moves c (c.nextFrame P level nowMs r).1.1 := by
  unfold nextFrame
  split
  · exact moves_stop c _
  · exact moves_processFrame P c _ level nowMs _

theorem moves_processFrames (payload : Bytes) (level : QUICLevel) (nowMs : Nat) :
    Moves c (c.processFrames P payload level nowMs).1 :=
  moves_carries.frameLoop (fun c r => moves_nextFrame P c level nowMs r) _ c false _

/-- The change from one connection to another is a run of the machine. -/
def Runs (c c' : QUICConnection) : Prop := ∀ handed, machine.Chain (c.ledger handed) (c'.ledger handed)

theorem Runs.refl : Runs c c := fun _ => Logged.Chain.refl _

theorem Runs.trans {c c' c'' : QUICConnection} (first : Runs c c') (second : Runs c' c'') : Runs c c'' :=
  fun handed => (first handed).trans (second handed)

theorem Moves.runs {c c' : QUICConnection} (moves : Moves c c') : Runs c c' := fun handed => (moves handed).lift

variable (p : Bytes) (header : QUICPacketHeader)

theorem openOneRTT_ledger (nowMs : Nat) (valid : c.keys.application.receive.isValid = true) (handed : Nat) :
    (c.openOneRTT P p header nowMs).1.ledger handed = c.ledger handed := by
  unfold openOneRTT
  extract_lets receive
  split
  · rfl
  split_ifs with same previous next
  · rfl
  · rfl
  · split
    · exact commitKeyUpdate_ledger P c nowMs _ next.2 valid handed
    · rfl
  · rfl

theorem openPacket_ledger (level : QUICLevel) (nowMs : Nat)
    (valid : (c.keys.get level).receive.isValid = true) (handed : Nat) :
    (c.openPacket P p header level nowMs).1.ledger handed = c.ledger handed := by
  unfold openPacket
  split_ifs with application
  · subst application
    exact openOneRTT_ledger P c p header nowMs valid handed
  · rfl

theorem validateAddress_spec :
    Moves c (c.validateAddress level) ∧ ((c.validateAddress level).keys.get level = c.keys.get level) := by
  unfold validateAddress
  split_ifs with handshake
  · obtain ⟨rfl, -⟩ := handshake
    refine ⟨?_, ?_⟩
    · have validated : Moves c { c with addressValidated := true } :=
        Moves.effect fun handed => Ledger.Effect.validated (c.ledger handed)
      exact validated.trans (moves_discardSpace _ .initial (.inl rfl))
    · unfold discardSpace
      extract_lets pair
      split_ifs <;> rfl
  · exact ⟨Moves.refl c, rfl⟩

theorem recordArrival_ledger (packetNumber : Nat) (ackEliciting : Bool) (nowMs handed : Nat) :
    (c.recordArrival level packetNumber ackEliciting nowMs).ledger handed = { (c.ledger handed).mark
          (.ackAdded level ((c.ledger handed).acks.get level) packetNumber) with
        acks := (c.ledger handed).acks.set level (((c.ledger handed).acks.get level).add packetNumber) } := by
  unfold recordArrival
  cases level <;> cases ackEliciting <;> simp only <;> split_ifs <;> rfl

theorem begins_frames {level : QUICLevel} {packetNumber : Nat} (valid : (c.keys.get level).receive.isValid = true)
    (fresh : (c.spaces.get level).acks.contains packetNumber = false) (handed : Nat) :
    Ledger.Begins (level, packetNumber) (c.ledger handed) ((c.mark (.frames level packetNumber)).ledger handed) := by
  apply Ledger.Begins.frames
  · rw [ledger_receivable, valid]
  · rw [ledger_acks, fresh]

theorem runs_processPayload (packet : QUICProtect.Opened) (nowMs : Nat)
    (valid : (c.keys.get level).receive.isValid = true)
    (fresh : (c.spaces.get level).acks.contains packet.packetNumber = false) :
    Runs c (c.processPayload P level packet nowMs) := by
  intro handed
  have begins := begins_frames c valid fresh handed
  have body := moves_processFrames P (c.mark (.frames level packet.packetNumber)) packet.payload level nowMs handed
  apply Logged.Chain.single
  unfold processPayload
  extract_lets c1
  split
  next c2 stopped =>
    rw [stopped] at body
    exact Logged.Transact.whole _ begins body (.cutShort _ level packet.packetNumber)
  next c2 ackEliciting done =>
    rw [done] at body
    rw [recordArrival_ledger]
    exact Logged.Transact.whole _ begins body (.added _ level packet.packetNumber)

theorem runs_acceptPacket (packet : QUICProtect.Opened) (nowMs : Nat)
    (valid : (c.keys.get level).receive.isValid = true) :
    Runs c (c.acceptPacket P level packet nowMs) := by
  obtain ⟨validated, keys⟩ := validateAddress_spec c level
  unfold acceptPacket
  extract_lets c1
  split_ifs with duplicate
  · exact validated.runs
  refine validated.runs.trans (runs_processPayload P c1 level packet nowMs ?_ ?_)
  · rw [show c1.keys.get level = c.keys.get level from keys]
    exact valid
  · exact Bool.not_eq_true _ ▸ duplicate

theorem runs_receivePacket (level : QUICLevel) (nowMs : Nat) : Runs c (c.receivePacket P p header level nowMs).1 := by
  unfold receivePacket
  split_ifs with other closed
  · exact .refl c
  · exact .refl c
  have valid : (c.keys.get level).receive.isValid = true := by simpa using closed
  have opened := openPacket_ledger P c p header level nowMs valid
  have still : ((c.openPacket P p header level nowMs).1.keys.get level).receive.isValid = true := by
    rw [← ledger_receivable _ 0, opened, ledger_receivable, valid]
  have moved : Moves c (c.openPacket P p header level nowMs).1 := Moves.silent opened
  split
  next c1 failed => simpa [failed] using moved.runs
  next c1 packet done =>
    rw [done] at moved still
    exact moved.runs.trans (runs_acceptPacket P c1 level packet nowMs still)

theorem runs_carries : Carries Runs where
  refl := Runs.refl
  trans := Runs.trans
  started c := (moves_carries.started c).runs
  counted c n := (moves_carries.counted c n).runs
  active c nowMs := (moves_carries.active c nowMs).runs

theorem runs_receiveOne (nowMs : Nat) : Runs c (c.receiveOne P p header nowMs) :=
  runs_carries.receiveOne c p header nowMs fun level _ => runs_receivePacket P c p header level nowMs

theorem runs_receive (datagram : Bytes) (nowMs : Nat) : Runs c (c.receive P datagram nowMs) :=
  runs_carries.receive c datagram nowMs fun q _ => runs_receivePacket P q.conn q.p q.header q.level q.nowMs

end
end QUICConnection
end AvianCore.Quic
