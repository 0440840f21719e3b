import AvianCore.Quic.Refine.Handshake
import AvianCore.Quic.Transit

/-!
The packets in transit of a connection. Most functions leave them alone; acknowledgements, arrivals,
timers and the keys move them by the effects of the machine.
-/

namespace AvianCore.Quic
open AvianCore.Lib PerLevel
open QUICKeyPair (isKeyed)

namespace QUICConnection

def transit (c : QUICConnection) : Transit where
  spaces := c.spaces
  recovery := c.recovery
  keyed := c.keys.map isKeyed
  log := c.history.filter Mark.isTransit

theorem transit_keyed (c : QUICConnection) (level : QUICLevel) :
    c.transit.keyed.get level = (c.keys.get level).isKeyed := get_map _ _ _

/-- The change from one connection to another leaves the packets in transit alone. -/
def Still (c c' : QUICConnection) : Prop := c'.transit = c.transit

/-- The change from one connection to another is a run of effects on packets in transit. -/
def Drifts (c c' : QUICConnection) : Prop := Transit.machine.Chain c.transit c'.transit

variable {c c' c'' : QUICConnection}

theorem Still.refl (c : QUICConnection) : Still c c := rfl

theorem Still.trans (first : Still c c') (second : Still c' c'') : Still c c'' := Eq.trans second first

theorem Still.drifts (still : Still c c') : Drifts c c' := by
  unfold Drifts
  rw [show c'.transit = c.transit from still]
  exact Logged.Chain.refl _

theorem Drifts.refl (c : QUICConnection) : Drifts c c := Logged.Chain.refl _

theorem Drifts.trans (first : Drifts c c') (second : Drifts c' c'') : Drifts c c'' := Logged.Chain.trans first second

theorem Drifts.effect (effect : Transit.Effect c.transit c'.transit) : Drifts c c' := Logged.Chain.single effect

theorem still_overlooks : Overlooks Still where
  refl := Still.refl
  trans := Still.trans
  mark c id := by
    unfold markWritable
    split_ifs <;> rfl
  write c id change := by
    unfold markWritable
    split_ifs <;> rfl
  queue _ _ _ _ _ _ _ _ _ := rfl

variable (c : QUICConnection) (id : Nat)

theorem still_noteWritable : Still c (c.noteWritable id) := by
  unfold noteWritable
  split_ifs <;> rfl

theorem still_close (code : Nat) (application : Bool) (reason : Bytes) : Still c (c.close code application reason) := by
  unfold close
  split_ifs <;> rfl

theorem still_fail (error : QUICError) : Still c (c.fail error) := still_close c _ _ _

theorem still_retireStream : Still c (c.retireStream id) := by
  unfold retireStream
  split
  · rfl
  · simp only
    split_ifs <;> rfl

theorem still_retireIfFinished : Still c (c.retireIfFinished id) := by
  unfold retireIfFinished
  split
  · rfl
  split_ifs
  · exact still_retireStream c id
  · rfl

theorem still_openStream (unidirectional : Bool) : Still c (c.openStream unidirectional).2 := by
  unfold openStream
  extract_lets limit next id receiveLimit stream c1
  split_ifs <;> rfl

theorem still_onStreamFrameAcked (frame : SentStreamFrame) : Still c (c.onStreamFrameAcked frame) := by
  unfold onStreamFrameAcked
  split
  · rfl
  next stream _ =>
    extract_lets send send' c1 c2
    have noted : Still c c2 := by
      simp only [c2]
      split_ifs
      · exact still_noteWritable c1 frame.id
      · rfl
    exact noted.trans (still_retireIfFinished c2 frame.id)

theorem still_onPacketAcked (packet : QUICSentPacket) (level : QUICLevel) : Still c (c.onPacketAcked packet level) := by
  unfold onPacketAcked
  extract_lets frames c1 c2 c3 c4
  have crypto : Still c c1 := by
    simp only [c1]
    split <;> rfl
  have streams : Still c1 c2 := still_overlooks.foldl _ still_onStreamFrameAcked _ c1
  have resets : Still c2 c3 := still_overlooks.foldl _ still_retireIfFinished _ c2
  have stops : Still c3 c4 := still_overlooks.foldl _ still_retireIfFinished _ c3
  have all := ((crypto.trans streams).trans resets).trans stops
  split_ifs
  · exact all.trans rfl
  · exact all

theorem drifts_discardSpace (level : QUICLevel) : Drifts c (c.discardSpace level) := by
  unfold discardSpace
  extract_lets pair c1
  split_ifs
  · exact .refl c
  apply Drifts.effect
  have effect := Transit.Effect.discard c.transit level
  unfold transit at effect ⊢
  rw [map_set]
  exact effect

theorem drifts_adoptPeerParameters : Drifts c c.adoptPeerParameters := Drifts.effect (.recover c.transit _ rfl rfl)

theorem drifts_completeHandshake : Drifts c c.completeHandshake := by
  unfold completeHandshake
  extract_lets c1 c2 c3 c4 c5
  have noted : Still c c2 := rfl
  have adopted : Drifts c2 c3 := drifts_adoptPeerParameters c2
  have announced : Still c3 c5 := rfl
  exact ((noted.drifts.trans adopted).trans announced.drifts).trans (drifts_discardSpace c5 .handshake)

section
variable (P : Primitives)

theorem quicDirection_valid {secret : Bytes} {cipher : QUICCipher} {version : Nat}
    {direction : QUICDirection} (derived : quicDirection P secret cipher version = some direction) :
    direction.isValid = true := by
  simp only [quicDirection, QUICKeys.derive, QUICHeaderKey.derive, Option.bind_eq_bind,
    Option.bind_eq_some_iff, Option.some.injEq] at derived
  obtain ⟨keys, ⟨_, _, _, _, made⟩, header, ⟨_, _, protection⟩, rfl⟩ := derived
  split_ifs at made protection
  simp only [Option.some.injEq] at made protection
  subst made protection
  rfl

theorem drifts_installKeys {c : QUICConnection} {secrets : Secrets} (done : c.installKeys P secrets = some c') :
    Drifts c c' := by
  simp only [installKeys, Option.bind_eq_bind, Option.bind_eq_some_iff] at done
  obtain ⟨send, derived, receive, _, result⟩ := done
  have keyed : isKeyed { send := send, receive := receive } = true := by simp [isKeyed, quicDirection_valid P derived]
  have grows : ∀ level, c.transit.keyed.get level = true →
      ((c.keys.set secrets.level { send := send, receive := receive }).map
        isKeyed).get level = true := by
    intro level before
    rw [get_map, get_set]
    split_ifs
    · exact keyed
    · exact transit_keyed c level ▸ before
  have effect := Transit.Effect.install c.transit _ grows
  split_ifs at result <;> simp only [Option.some.injEq] at result <;> subst result
  · exact Drifts.effect effect
  · exact Drifts.effect effect

variable (c : QUICConnection)

theorem drifts_installAll (secrets : List Secrets) : Drifts c (c.installAll P secrets).1 := by
  induction secrets generalizing c with
  | nil => exact .refl c
  | cons first rest ih =>
    unfold installAll
    split
    · exact .refl c
    next c1 installed => exact (drifts_installKeys P installed).trans (ih c1)

theorem drifts_applyTLSProgress : Drifts c (c.applyTLSProgress P).1 := by
  unfold applyTLSProgress
  split
  · exact (still_close c _ _ _).drifts
  extract_lets tls c1
  have written : Still c c1 := rfl
  split
  next secrets tls taken =>
    extract_lets c2
    have installed := drifts_installAll P c2 secrets
    have taking : Still c1 c2 := rfl
    have both := (written.trans taking).drifts.trans installed
    split
    next c3 failed =>
      rw [failed] at both
      exact both.trans (still_fail c3 _).drifts
    next c3 went =>
      rw [went] at both
      split_ifs
      · exact both.trans (drifts_completeHandshake c3)
      · exact both

theorem still_commitKeyUpdate (nowMs packetNumber : Nat)
    (next : c.nextReceiveKeys.isValid = true) (valid : c.keys.application.receive.isValid = true) :
    Still c (c.commitKeyUpdate P nowMs packetNumber) := by
  have header : c.keys.application.receive.header.isValid = true := by
    simp only [QUICDirection.isValid, Bool.and_eq_true] at valid
    exact valid.2
  have after : ({ c.keys.application.receive with keys := c.nextReceiveKeys } : QUICDirection).isValid = true := by
    simp [QUICDirection.isValid, next, header]
  simp [Still, transit, commitKeyUpdate, map, isKeyed, valid, after]

end
end QUICConnection
end AvianCore.Quic
