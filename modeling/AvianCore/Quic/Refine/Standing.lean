import AvianCore.Quic.Refine.Run
import AvianCore.Quic.Standing

/-!
The standing of a connection. Sending, timers and most of what frames do leave it alone; the rest are
acts of the machine, and what frames bring is under the condition of the machine.
-/

namespace AvianCore.Quic
open AvianCore.Lib Standing List

def Mark.retiredID : Mark → Option Nat
  | .retired id _ => some id
  | _ => none

namespace QUICConnection

def stage (c : QUICConnection) : Stage := ⟨c.tls, c.handshakeComplete, c.addressValidated⟩

/-- The standing of a connection, of whose events `handed` were taken away before. -/
def standing (c : QUICConnection) (handed : List QUICEvent) : Standing where
  toStage := c.stage
  limits := c.toStreamLimits
  sendLimit := c.sendLimit
  highestBidi := c.highestIncomingBidi
  highestUni := c.highestIncomingUni
  nextBidi := c.nextLocalStreamBidi
  nextUni := c.nextLocalStreamUni
  live := c.streams.keys
  retired := c.history.filterMap Mark.retiredID
  announced := handed ++ c.events

/-- The change from one connection to another leaves the standing alone. -/
def Stands (c c' : QUICConnection) : Prop := ∀ handed, c'.standing handed = c.standing handed

def Proceeds (P : Primitives) (ok : Stage → Act → Prop) (c c' : QUICConnection) : Prop :=
  ∀ handed, (machine P ok).Chain (c.standing handed) (c'.standing handed)

variable {P : Primitives} {ok : Stage → Act → Prop} {c c' c'' : QUICConnection}

theorem Stands.refl (c : QUICConnection) : Stands c c := fun _ => rfl

theorem Stands.trans (first : Stands c c') (second : Stands c' c'') : Stands c c'' :=
  fun handed => (second handed).trans (first handed)

theorem Stands.proceeds (stands : Stands c c') : Proceeds P ok c c' := by
  intro handed
  rw [stands handed]
  exact Logged.Chain.refl _

theorem Stands.stage (stands : Stands c c') : c'.stage = c.stage := congrArg toStage (stands [])

theorem Stands.keys (stands : Stands c c') : c'.streams.keys = c.streams.keys := congrArg live (stands [])

theorem Proceeds.refl (c : QUICConnection) : Proceeds P ok c c := fun _ => Logged.Chain.refl _

theorem Proceeds.trans (first : Proceeds P ok c c') (second : Proceeds P ok c' c'') : Proceeds P ok c c'' :=
  fun handed => (first handed).trans (second handed)

theorem Proceeds.act (act : Act) (enabled : ∀ handed, (c.standing handed).Enabled act)
    (allowed : act.Brought → ok c.stage act)
    (applied : ∀ handed, c'.standing handed = (c.standing handed).apply P act) :
    Proceeds P ok c c' := by
  intro handed
  rw [applied handed]
  exact Logged.Chain.single (.act _ act (enabled handed) allowed)

theorem proceeds_foldl {α : Type} (act : QUICConnection → α → QUICConnection)
    (each : ∀ c item, Proceeds P ok c (act c item)) (items : List α) (c : QUICConnection) :
    Proceeds P ok c (items.foldl act c) := by
  induction items generalizing c with
  | nil => exact .refl c
  | cons item rest ih => exact (each c item).trans (ih (act c item))

theorem stands_modifyStream (c : QUICConnection) (id : Nat) (change : QUICStream → QUICStream) :
    Stands c (c.modifyStream id change) := by
  intro handed
  unfold standing modifyStream
  simp only [Table.keys_modify]
  rfl

theorem stands_markWritable (c : QUICConnection) (id : Nat) : Stands c (c.markWritable id) := by
  intro handed
  unfold markWritable
  split <;> rfl

theorem stands_overlooks : Overlooks Stands where
  refl := Stands.refl
  trans := Stands.trans
  mark := stands_markWritable
  write c id change := (stands_modifyStream c id change).trans (stands_markWritable _ id)
  queue _ _ _ _ _ _ _ _ _ _ := rfl

variable (c : QUICConnection) (level : QUICLevel) (id : Nat)

theorem proceeds_append (event : QUICEvent) (carried : Bool)
    (due : event.kind = .closed ∨ carried = true ∨ c.streams.keys ≠ [])
    (allowed : carried = true → ok c.stage (.announce event carried)) :
    Proceeds P ok c (c.append event) := by
  apply Proceeds.act (.announce event carried) (fun _ => due) allowed
  intro handed
  unfold standing append
  simp only [apply, append_assoc]
  rfl

theorem keys_ne_nil {c : QUICConnection} {id : Nat} {s : QUICStream} (found : c.streams.lookup id = some s) :
    c.streams.keys ≠ [] := by
  intro none
  have member : id ∈ c.streams.keys := AList.lookup_isSome.mp (by rw [found]; rfl)
  rw [none] at member
  cases member

theorem proceeds_noteWritable (live : c.streams.keys ≠ []) : Proceeds P ok c (c.noteWritable id) := by
  unfold noteWritable
  split
  · exact .refl c
  have noted : Stands c { c with writableAnnounced := insert id c.writableAnnounced } := fun _ => rfl
  apply noted.proceeds.trans
  exact proceeds_append _ _ false (.inr (.inr live)) (fun impossible => by cases impossible)

theorem proceeds_close (code : Nat) (application : Bool) (reason : Bytes) :
    Proceeds P ok c (c.close code application reason) := by
  unfold close
  split
  · exact .refl c
  extract_lets c1
  have closed : Stands c c1 := fun _ => rfl
  apply closed.proceeds.trans
  exact proceeds_append c1 _ false (.inl rfl) (fun impossible => by cases impossible)

theorem proceeds_fail (error : QUICError) : Proceeds P ok c (c.fail error) := proceeds_close c _ _ _

theorem proceeds_retireStream : Proceeds P ok c (c.retireStream id) := by
  unfold retireStream
  split
  · exact .refl c
  next s found =>
    have member : id ∈ c.streams.keys := AList.lookup_isSome.mp (by rw [found]; rfl)
    apply Proceeds.act (.retire id) (fun _ => member) (fun brought => by cases brought)
    intro handed
    extract_lets c1 c2
    have erased : c2.streams.keys = c.streams.keys.erase id := AList.keys_erase _ _
    by_cases client : QUICStreamKind.isClientInitiated id = true
    · by_cases uni : QUICStreamKind.isUnidirectional id = true
      · rw [if_pos client, if_pos uni]
        unfold standing
        simp only [apply, erased, client, uni, if_true]
        rfl
      rw [if_pos client, if_neg uni]
      unfold standing
      simp only [apply, erased, client, if_true, if_neg uni]
      rfl
    · rw [if_neg client]
      unfold standing
      simp only [apply, erased, if_neg client]
      rfl

theorem proceeds_retireIfFinished : Proceeds P ok c (c.retireIfFinished id) := by
  unfold retireIfFinished
  split
  · exact .refl c
  split
  · exact proceeds_retireStream c id
  · exact .refl c

theorem proceeds_openStream (unidirectional : Bool) : Proceeds P ok c (c.openStream unidirectional).2 := by
  unfold openStream
  extract_lets limit next id receiveLimit stream c1
  split
  · exact .refl c
  next below =>
    apply Proceeds.act (.openLocal unidirectional) (fun _ => not_le.mp below) (fun brought => by cases brought)
    intro handed
    have inserted : c1.streams.keys = id :: c.streams.keys.erase id := AList.keys_insert _
    cases unidirectional with
    | true =>
      unfold standing
      simp only [apply, if_true, inserted]
      rfl
    | false =>
      unfold standing
      simp only [apply, Bool.false_eq_true, if_false, inserted]
      rfl

theorem proceeds_releaseStream : Proceeds P ok c (c.releaseStream id) :=
  (stands_modifyStream c id _).proceeds.trans (proceeds_retireIfFinished _ id)

theorem proceeds_onStreamFrameAcked (frame : SentStreamFrame) : Proceeds P ok c (c.onStreamFrameAcked frame) := by
  unfold onStreamFrameAcked
  split
  · exact .refl c
  next stream found =>
    extract_lets send send' c1 c2
    have settled : Stands c c1 := stands_modifyStream c frame.id _
    have live : c1.streams.keys ≠ [] := settled.keys ▸ keys_ne_nil found
    have noted : Proceeds P ok c1 c2 := by
      simp only [c2]
      split
      · exact proceeds_noteWritable c1 frame.id live
      · exact .refl c1
    exact (settled.proceeds.trans noted).trans (proceeds_retireIfFinished c2 frame.id)

theorem proceeds_onPacketAcked (packet : QUICSentPacket) (level : QUICLevel) :
    Proceeds P ok c (c.onPacketAcked packet level) := by
  unfold onPacketAcked
  extract_lets frames c1 c2 c3 c4
  have crypto : Stands c c1 := by
    intro handed
    simp only [c1]
    split <;> rfl
  have streams : Proceeds P ok c1 c2 := proceeds_foldl _ proceeds_onStreamFrameAcked _ c1
  have resets : Proceeds P ok c2 c3 := proceeds_foldl _ proceeds_retireIfFinished _ c2
  have stops : Proceeds P ok c3 c4 := proceeds_foldl _ proceeds_retireIfFinished _ c3
  have all := ((crypto.proceeds.trans streams).trans resets).trans stops
  split
  · have done : Stands c4 { c4 with handshakeDonePending := false } := fun _ => rfl
    exact all.trans done.proceeds
  · exact all

theorem retired_settled (acked lost : List QUICSentPacket) (history : List Mark) :
    (acked.map (Mark.acked level) ++ lost.map (Mark.lost level) ++ history).filterMap
      Mark.retiredID = history.filterMap Mark.retiredID := by
  have none : ∀ (note : QUICSentPacket → Mark), (∀ packet, (note packet).retiredID = none) →
      ∀ packets : List QUICSentPacket, (packets.map note).filterMap Mark.retiredID = [] := by
    intro note silent packets
    rw [filterMap_map, filterMap_eq_nil_iff]
    exact fun packet _ => silent packet
  rw [filterMap_append, filterMap_append, none (Mark.acked level) (fun _ => rfl), none (Mark.lost level) (fun _ => rfl)]
  rfl

theorem proceeds_acceptAck (ranges : List PacketRange) (largest delayRaw : Nat) (level : QUICLevel) (nowMs : Nat) :
    Proceeds P ok c (c.acceptAck ranges largest delayRaw level nowMs) := by
  unfold acceptAck
  extract_lets exponent delay
  split
  next result space recovery done =>
    extract_lets c1 c2 c3
    have settled : Stands c c1 := by
      intro handed
      unfold standing
      simp only [c1, retired_settled]
      rfl
    have acked : Proceeds P ok c1 c2 := proceeds_foldl _ (fun c packet => proceeds_onPacketAcked c packet level) _ c1
    have lost : Stands c2 c3 := stands_overlooks.foldl _ (fun c packet => stands_overlooks.onPacketLost c packet level) _ c2
    have all := (settled.proceeds.trans acked).trans lost.proceeds
    split
    · have confirmed : Stands c3 { c3 with handshakeConfirmed := true, keyUpdatePermitted := true } := fun _ => rfl
      exact all.trans confirmed.proceeds
    · exact all

theorem stands_discardSpace : Stands c (c.discardSpace level) := by
  intro handed
  unfold discardSpace
  dsimp only
  split <;> rfl

theorem proceeds_feedTLS (allowed : (c.cryptoReceive.get level).ready ≠ [] →
      ok c.stage (.feed level (c.cryptoReceive.get level).ready)) :
    Proceeds P ok c (c.feedTLS P level) := by
  unfold feedTLS
  extract_lets ready
  by_cases none : ready.isEmpty = true
  · rw [if_pos none]
    exact .refl c
  rw [if_neg none]
  have some : ready ≠ [] := fun empty => none (isEmpty_iff.mpr empty)
  exact Proceeds.act (.feed level ready) (fun _ => trivial) (fun _ => allowed some) (fun _ => rfl)

theorem stands_installKeys {c : QUICConnection} {secrets : Secrets} (done : c.installKeys P secrets = some c') :
    Stands c c' := by
  intro handed
  simp only [installKeys, Option.bind_eq_bind, Option.bind_eq_some_iff] at done
  obtain ⟨send, _, receive, _, done⟩ := done
  split_ifs at done <;> cases done <;> rfl

theorem stands_installAll (secrets : List Secrets) : Stands c (c.installAll P secrets).1 := by
  induction secrets generalizing c with
  | nil => exact .refl c
  | cons head rest ih =>
    unfold installAll
    split
    · exact .refl c
    next c1 done => exact (stands_installKeys done).trans (ih c1)

theorem proceeds_completeHandshake (state : c.tls.state = .complete) (first : c.handshakeComplete = false) :
    Proceeds P ok c c.completeHandshake := by
  unfold completeHandshake
  extract_lets c1 c2 c3 c4 c5
  have completed : Proceeds P ok c c5 := by
    apply Proceeds.act .completed (fun _ => ⟨state, first⟩) (fun brought => by cases brought)
    intro handed
    have keys : c5.streams.keys = c.streams.keys := Table.keys_mapValues _ _
    unfold standing
    simp only [apply, keys, append_assoc]
    rfl
  exact completed.trans (stands_discardSpace c5 .handshake).proceeds

theorem proceeds_applyTLSProgress : Proceeds P ok c (c.applyTLSProgress P).1 := by
  unfold applyTLSProgress
  split
  · exact proceeds_close c _ _ _
  extract_lets written c1
  split
  next secrets tls taken =>
    extract_lets c2
    have tls_eq : tls = { c1.tls with pendingSecrets := [] } := (Prod.ext_iff.mp taken).2.symm
    have handedOut : Proceeds P ok c c2 := by
      apply Proceeds.act .handOut (fun _ => trivial) (fun brought => by cases brought)
      intro handed
      simp only [c2, tls_eq]
      rfl
    have installed := stands_installAll (P := P) c2 secrets
    split
    next c3 failed =>
      rw [failed] at installed
      exact (handedOut.trans installed.proceeds).trans (proceeds_fail c3 _)
    next c3 done =>
      rw [done] at installed
      have ready : Proceeds P ok c c3 := handedOut.trans installed.proceeds
      by_cases finished : c3.tls.state = .complete ∧ (!c3.handshakeComplete) = true
      · rw [if_pos finished]
        exact ready.trans (proceeds_completeHandshake c3 finished.1 (by simpa using finished.2))
      · rw [if_neg finished]
        exact ready

def fed (c : QUICConnection) (level : QUICLevel) (r : QUICReader) : Option Bytes :=
  match readCrypto r with
  | none => none
  | some (offset, data, _) =>
    match (c.cryptoReceive.get level).accept offset data false with
    | (.ok, stream) =>
      if (c.cryptoReceive.get level).received < stream.received ∧ stream.ready ≠ [] then
        some stream.ready
      else none
    | _ => none

theorem proceeds_stop (error : QUICError) : Proceeds P ok c (c.stop error).1 := proceeds_fail c error

theorem proceeds_handleCrypto (r : QUICReader) (allowed : ∀ p, c.fed level r = some p → ok c.stage (.feed level p)) :
    Proceeds P ok c (c.handleCrypto P level r).1 := by
  unfold handleCrypto decoded
  unfold fed at allowed
  split
  · exact proceeds_stop c _
  next fields read =>
    obtain ⟨offset, data, later⟩ := fields
    rw [read] at allowed
    dsimp only at allowed ⊢
    split
    · exact proceeds_stop c _
    · exact proceeds_stop c _
    next stream accepted =>
      rw [accepted] at allowed
      dsimp only at allowed
      have stored : Stands c { c with cryptoReceive := c.cryptoReceive.set level stream } := fun _ => rfl
      have here : (({ c with cryptoReceive := c.cryptoReceive.set level stream } :
          QUICConnection).cryptoReceive.get level) = stream := PerLevel.get_set_self _ _ _
      split
      next grew =>
        have fed : Proceeds P ok { c with cryptoReceive := c.cryptoReceive.set level stream }
            (({ c with cryptoReceive := c.cryptoReceive.set level stream } :
              QUICConnection).feedTLS P level) := by
          apply proceeds_feedTLS
          intro some
          rw [here] at some ⊢
          apply allowed
          rw [if_pos ⟨grew, some⟩]
        have progress := (stored.proceeds.trans fed).trans (proceeds_applyTLSProgress _)
        split
        next c1 stopped =>
          rw [stopped] at progress
          exact progress
        next c1 went =>
          rw [went] at progress
          exact progress
      · exact stored.proceeds

end QUICConnection
end AvianCore.Quic
