import AvianCore.Quic.Answered
import AvianCore.Quic.Messages
import AvianCore.Quic.Refine.Upkeep

/-!
Handshake messages and their levels. A ClientHello belongs to the Initial level and a Finished to the
Handshake level, whose packets prove the client's address; TLS itself does not look at the level.
-/

namespace AvianCore.Quic
open AvianCore.Lib HandshakeType

namespace TLSServerHandshake

def Belongs (tls : TLSServerHandshake) (level : QUICLevel) (p : Bytes) : Prop :=
  ∀ type ∈ tls.completes level p, (type = clientHello → level = .initial) ∧
    (type = finished → level = .handshake)

instance (tls : TLSServerHandshake) (level : QUICLevel) (p : Bytes) : Decidable (tls.Belongs level p) :=
  inferInstanceAs (Decidable (∀ type ∈ tls.completes level p, _ ∧ _))

variable (P : Primitives)

/-- A call accepts a ClientHello at the Initial level only, and completes the handshake at the Handshake
level only, by a Finished. -/
structure Respects (tls : TLSServerHandshake) (level : QUICLevel) (p : Bytes) : Prop where
  hello : tls.state = .waitingClientHello →
    (tls.receive P p level).state = .waitingFinished ∨ (tls.receive P p level).state = .complete →
      clientHello ∈ tls.completes level p ∧ level = .initial
  complete : tls.state ≠ .complete → (tls.receive P p level).state = .complete →
    finished ∈ tls.completes level p ∧ level = .handshake

theorem Belongs.respects {tls : TLSServerHandshake} {level : QUICLevel} {p : Bytes}
    (belongs : tls.Belongs level p) : tls.Respects P level p := by
  have heard := hears_receive P tls p level
  constructor
  · intro waiting reached
    have member := heard.hello waiting reached
    exact ⟨member, (belongs _ member).1 rfl⟩
  · intro other reached
    have member := heard.finished other reached
    exact ⟨member, (belongs _ member).2 rfl⟩

def Throughout (holds : TLSServerHandshake → QUICLevel → Bytes → Prop) :
    TLSServerHandshake → List (QUICLevel × Bytes) → Prop
  | _, [] => True
  | tls, (level, p) :: rest => holds tls level p ∧ Throughout holds (tls.receive P p level) rest

theorem Throughout.mono {holds holds' : TLSServerHandshake → QUICLevel → Bytes → Prop}
    (weaker : ∀ tls level p, holds tls level p → holds' tls level p) {tls : TLSServerHandshake}
    {calls : List (QUICLevel × Bytes)} (throughout : Throughout P holds tls calls) :
    Throughout P holds' tls calls := by
  induction calls generalizing tls with
  | nil => trivial
  | cons call rest ih => exact ⟨weaker _ _ _ throughout.1, ih throughout.2⟩

end TLSServerHandshake

/-- The handshake bytes that a frame brings hold no message that does not belong to its level. -/
def Meeting.Belongs (m : Meeting) : Prop :=
  ∀ p, m.type = .crypto → m.conn.fed m.level m.reader = some p → m.conn.tls.Belongs m.level p

namespace Standing

/-- Only a validated address has a complete handshake. -/
structure Secured (a : Standing) : Prop where
  finished : a.tls.state = .complete → a.validated = true
  complete : a.complete = true → a.validated = true

/-- Handshake bytes belong to their level, and those of the Handshake level come from a validated
address. -/
def properly (stage : Stage) : Act → Prop
  | .feed level p => stage.tls.Belongs level p ∧ (level = .handshake → stage.validated = true)
  | _ => True

theorem Secured.apply {P : Primitives} {a : Standing} (secured : Secured a) (act : Act)
    (enabled : a.Enabled act) (allowed : act.Brought → properly a.toStage act) :
    Secured (a.apply P act) := by
  cases act with
  | feed level p =>
    obtain ⟨belongs, validated⟩ := allowed trivial
    refine ⟨fun reached => ?_, secured.complete⟩
    by_cases before : a.tls.state = .complete
    · exact secured.finished before
    · exact validated ((belongs.respects P).complete before reached).2
  | completed => exact ⟨secured.finished, fun _ => secured.finished enabled.1⟩
  | validate => exact ⟨fun _ => rfl, fun _ => rfl⟩
  | grantStreams unidirectional limit => cases unidirectional <;> exact ⟨secured.finished, secured.complete⟩
  | name unidirectional => cases unidirectional <;> exact ⟨secured.finished, secured.complete⟩
  | openLocal unidirectional => cases unidirectional <;> exact ⟨secured.finished, secured.complete⟩
  | _ => exact ⟨secured.finished, secured.complete⟩

theorem validated_apply {P : Primitives} {a : Standing} (act : Act) (validated : a.validated = true) :
    (a.apply P act).validated = true := by
  cases act with
  | validate => rfl
  | grantStreams unidirectional limit => cases unidirectional <;> exact validated
  | name unidirectional | openLocal unidirectional => cases unidirectional <;> exact validated
  | _ => exact validated

end Standing

namespace QUICConnection
variable {P : Primitives}

theorem Proceeds.validated {ok : Stage → Act → Prop} {c c' : QUICConnection}
    (proceeds : Proceeds P ok c c') (validated : c.addressValidated = true) :
    c'.addressValidated = true :=
  Standing.machine_keeps P (I := fun a => a.validated = true)
    (fun _ act _ _ validated => Standing.validated_apply act validated) (proceeds []) validated

theorem validateAddress_handshake (c : QUICConnection) : (c.validateAddress .handshake).addressValidated = true := by
  unfold validateAddress
  split
  · exact congrArg Stage.validated (stands_discardSpace _ .initial).stage
  next not =>
    have validated : c.addressValidated = true := by simpa using not
    exact validated

theorem receiveMeetings_validated {c : QUICConnection} {datagram : Bytes} {nowMs : Nat} {m : Meeting}
    (met : m ∈ c.receiveMeetings P datagram nowMs) (handshake : m.level = .handshake) :
    m.conn.addressValidated = true := by
  obtain ⟨q, -, inside⟩ := List.mem_flatMap.mp met
  obtain ⟨packet, -, member⟩ := packetMeetings_payload inside
  have same : q.level = .handshake := (frameMeetings_level member).1.symm.trans handshake
  have before : Proceeds P (fun _ _ => True) _ m.conn := proceeds_spans.before_frame q.level q.nowMs _ _ _
      (fun m _ => proceeds_processFrame m fun _ _ => trivial) member
  apply before.validated
  rw [same]
  exact validateAddress_handshake _

end QUICConnection

namespace World
variable (P : Primitives)

theorem meetings_validated {w : World} {ops : List Op} {m : Meeting} (met : m ∈ w.runMeetings P ops)
    (handshake : m.level = .handshake) : m.conn.addressValidated = true := by
  induction ops generalizing w with
  | nil => cases met
  | cons op rest ih =>
    rcases List.mem_append.mp met with first | later
    · cases op with
      | receive datagram nowMs => exact QUICConnection.receiveMeetings_validated first handshake
      | _ => cases first
    · exact ih later

theorem Fresh.secured {start : World} (fresh : Fresh P start) : start.standing.Secured := by
  have initial := fresh.initial P
  have awaiting : start.conn.tls.state = .waitingClientHello := beq_iff_eq.mp initial.awaiting
  constructor
  · intro finished
    have state : start.conn.tls.state = .complete := finished
    cases awaiting.symm.trans state
  · intro complete
    have none : start.conn.handshakeComplete = false := initial.complete
    have some : start.conn.handshakeComplete = true := complete
    cases none.symm.trans some

/-- Where every message comes at the level it belongs to, a ClientHello is accepted at the Initial level
only and the handshake completed by a Finished at the Handshake level only, and a connection whose
handshake is complete has a validated address. -/
theorem levels_respected (tls : TLSServerHandshake) (calls : List (QUICLevel × Bytes))
    (called : tls.Throughout P TLSServerHandshake.Belongs calls) {start : World}
    (fresh : Fresh P start) (ops : List Op) (met : ∀ m ∈ start.runMeetings P ops, m.Belongs) :
    tls.Throughout P (TLSServerHandshake.Respects P) calls ∧
      ((start.run P ops).conn.handshakeComplete = true → (start.run P ops).conn.addressValidated = true) := by
  constructor
  · exact called.mono P fun tls level p belongs => belongs.respects P
  · have allowed : ∀ m ∈ start.runMeetings P ops, ∀ act, m.Brings act → Standing.properly m.conn.stage act := by
      intro m member act brings
      cases act with
      | feed level p =>
        obtain ⟨crypto, rfl, fed⟩ := brings
        exact ⟨met m member p crypto fed, meetings_validated P member⟩
      | _ => trivial
    have chain := run_standing P start ops allowed
    have secured : (start.run P ops).standing.Secured :=
      Standing.machine_keeps P (fun a act enabled allowed secured => secured.apply act enabled allowed)
        chain (fresh.secured P)
    exact secured.complete

def newTLS : TLSServerHandshake := start.conn.tls

def helloBytes : Bytes := Client.clientHello Client.parameters

def finishedBytes : Bytes := 20 :: lengthPrefixed 3 (zeros 32)

def allBelong (meetings : List Meeting) : Bool :=
  meetings.all fun m => m.type != .crypto ||
    (m.conn.fed m.level m.reader).all fun p => decide (m.conn.tls.Belongs m.level p)

theorem belongs_of_allBelong {meetings : List Meeting} (all : allBelong meetings = true) :
    ∀ m ∈ meetings, m.Belongs := by
  intro m member p crypto fed
  have one := List.all_eq_true.mp all m member
  rw [crypto, fed] at one
  simpa using one

/-- The two messages come at their levels, the second in two parts. -/
theorem levels_respected_split : newTLS.Throughout .transparent (TLSServerHandshake.Respects .transparent)
        [(.initial, helloBytes), (.handshake, finishedBytes.take 7), (.handshake, finishedBytes.drop 7)] ∧
      (start.run .transparent [Client.hello, Client.finished]).conn.handshakeComplete = true ∧
      (start.run .transparent [Client.hello, Client.finished]).conn.addressValidated = true := by
  have first : newTLS.Belongs .initial helloBytes := by decide +kernel
  have second : (newTLS.receive .transparent helloBytes .initial).Belongs .handshake
      (finishedBytes.take 7) := by decide +kernel
  have third : ((newTLS.receive .transparent helloBytes .initial).receive .transparent
      (finishedBytes.take 7) .handshake).Belongs .handshake (finishedBytes.drop 7) := by decide +kernel
  have all : allBelong (start.runMeetings .transparent [Client.hello, Client.finished]) = true := by decide +kernel
  have complete : (start.run .transparent [Client.hello, Client.finished]).conn.handshakeComplete =
      true := by decide +kernel
  obtain ⟨calls, validated⟩ := levels_respected .transparent newTLS
    [(.initial, helloBytes), (.handshake, finishedBytes.take 7), (.handshake, finishedBytes.drop 7)]
    ⟨first, second, third, trivial⟩ start_fresh [Client.hello, Client.finished]
    (belongs_of_allBelong all)
  exact ⟨calls, complete, validated complete⟩

/-- A new handshake accepts both messages at the 1-RTT level, and a connection that gets its Finished in a
1-RTT packet is complete with an address that was never validated. -/
theorem finished_at_any_level : (newTLS.receive .transparent helloBytes .application).state = .waitingFinished ∧
      ((newTLS.receive .transparent helloBytes .application).receive .transparent finishedBytes
        .application).state = .complete ∧
      (start.run .transparent settled).conn.handshakeComplete = true ∧
      (start.run .transparent settled).conn.addressValidated = false :=
  ⟨by decide +kernel, by decide +kernel, by decide +kernel, by decide +kernel⟩

end World
end AvianCore.Quic
