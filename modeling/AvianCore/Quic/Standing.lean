import AvianCore.Lib.Logged
import AvianCore.Quic.Run

/-!
The standing of a connection: how far its handshake is, what each side may open, the streams that are
live or gone, and the events that were announced. The acts below are the ways in which it changes.
-/

namespace AvianCore.Quic
open AvianCore.Lib

/-- How far the handshake is. -/
structure Stage where
  tls : TLSServerHandshake
  complete : Bool
  validated : Bool

structure Standing extends Stage where
  limits : StreamLimits
  sendLimit : Nat
  highestBidi : Highest
  highestUni : Highest
  nextBidi : Nat
  nextUni : Nat
  live : List Nat
  retired : List Nat
  /-- The events appended so far, handed over or not. -/
  announced : List QUICEvent

inductive Act where
  /-- Handshake bytes of a level reach TLS. -/
  | feed (level : QUICLevel) (p : Bytes)
  /-- What TLS wrote and derived is taken from it. -/
  | handOut
  | completed
  | validate
  | grantData (limit : Nat)
  | grantStreams (unidirectional : Bool) (limit : Nat)
  /-- The next client stream of a kind is opened. -/
  | name (unidirectional : Bool)
  | openLocal (unidirectional : Bool)
  | retire (id : Nat)
  /-- An event is appended; `carried` says that a frame of a 1-RTT packet brought it. -/
  | announce (event : QUICEvent) (carried : Bool)

def Act.Brought : Act → Prop
  | .feed .. | .grantData _ | .grantStreams .. | .name _ => True
  | .announce _ carried => carried = true
  | _ => False

namespace Standing

def highest (a : Standing) (unidirectional : Bool) : Highest :=
  if unidirectional then a.highestUni else a.highestBidi

def localMax (a : Standing) (unidirectional : Bool) : Nat :=
  if unidirectional then a.limits.localMaxStreamsUni else a.limits.localMaxStreamsBidi

def peerMax (a : Standing) (unidirectional : Bool) : Nat :=
  if unidirectional then a.limits.peerMaxStreamsUni else a.limits.peerMaxStreamsBidi

def next (a : Standing) (unidirectional : Bool) : Nat := if unidirectional then a.nextUni else a.nextBidi

def nextIncoming (a : Standing) (unidirectional : Bool) : Nat :=
  QUICStreamKind.id ((a.highest unidirectional).val + 1).toNat false unidirectional

def Enabled (a : Standing) : Act → Prop
  | .completed => a.tls.state = .complete ∧ a.complete = false
  | .name unidirectional => (a.highest unidirectional).val + 1 < a.localMax unidirectional
  | .openLocal unidirectional => a.next unidirectional < a.peerMax unidirectional
  | .retire id => id ∈ a.live
  | .announce event carried => event.kind = .closed ∨ carried = true ∨ a.live ≠ []
  | _ => True

variable (P : Primitives)

def apply (a : Standing) : Act → Standing
  | .feed level p => { a with tls := a.tls.receive P p level }
  | .handOut => { a with
      tls := { a.tls with initialOut := [], handshakeOut := [], pendingSecrets := [] } }
  | .completed => { a with
      complete := true
      sendLimit := a.tls.peerParameters.initialMaxData
      limits := { a.limits with
        peerMaxStreamsBidi := a.tls.peerParameters.initialMaxStreamsBidi
        peerMaxStreamsUni := a.tls.peerParameters.initialMaxStreamsUni }
      announced := a.announced ++ [{ kind := .handshakeComplete }] }
  | .validate => { a with validated := true }
  | .grantData limit => { a with sendLimit := max a.sendLimit limit }
  | .grantStreams true limit => { a with
      limits := { a.limits with peerMaxStreamsUni := max a.limits.peerMaxStreamsUni limit } }
  | .grantStreams false limit => { a with
      limits := { a.limits with peerMaxStreamsBidi := max a.limits.peerMaxStreamsBidi limit } }
  | .name true => { a with
      highestUni := ⟨a.highestUni.val + 1, le_trans a.highestUni.property (by omega)⟩
      live := a.nextIncoming true :: a.live.erase (a.nextIncoming true) }
  | .name false => { a with
      highestBidi := ⟨a.highestBidi.val + 1, le_trans a.highestBidi.property (by omega)⟩
      live := a.nextIncoming false :: a.live.erase (a.nextIncoming false) }
  | .openLocal true => { a with
      nextUni := a.nextUni + 1
      live := QUICStreamKind.id a.nextUni true true :: a.live.erase (QUICStreamKind.id a.nextUni true true) }
  | .openLocal false => { a with
      nextBidi := a.nextBidi + 1
      live := QUICStreamKind.id a.nextBidi true false ::
        a.live.erase (QUICStreamKind.id a.nextBidi true false) }
  | .retire id => { a with
      live := a.live.erase id
      retired := id :: a.retired
      limits :=
        if QUICStreamKind.isClientInitiated id then
          if QUICStreamKind.isUnidirectional id then
            { a.limits with localMaxStreamsUni := a.limits.localMaxStreamsUni + 1 }
          else { a.limits with localMaxStreamsBidi := a.limits.localMaxStreamsBidi + 1 }
        else a.limits }
  | .announce event _ => { a with announced := a.announced ++ [event] }

/-- One act. What the peer brings meets a condition, which may look at the handshake. -/
inductive Effect (ok : Stage → Act → Prop) : Standing → Standing → Prop where
  | act (a : Standing) (act : Act) (enabled : a.Enabled act)
      (allowed : act.Brought → ok a.toStage act) : Effect ok a (a.apply P act)

theorem Effect.grows {ok : Stage → Act → Prop} {a b : Standing} (effect : Effect P ok a b) :
    a.retired <:+ b.retired := by
  cases effect with | act act enabled allowed =>
  cases act with
  | retire id => exact List.suffix_cons id a.retired
  | grantStreams unidirectional limit => cases unidirectional <;> exact List.suffix_rfl
  | name unidirectional | openLocal unidirectional => cases unidirectional <;> exact List.suffix_rfl
  | _ => exact List.suffix_rfl

/-- The machine of standings; its log is the list of the streams that are gone. -/
def machine (ok : Stage → Act → Prop) : Logged Standing Nat where
  log := retired
  Step := Effect P ok
  grows := Effect.grows P

theorem machine_keeps {ok : Stage → Act → Prop} {I : Standing → Prop}
    (each : ∀ a act, a.Enabled act → (act.Brought → ok a.toStage act) → I a → I (a.apply P act))
    {a b : Standing} (chain : (machine P ok).Chain a b) (start : I a) : I b := by
  apply chain.keeps_always _ start
  intro s t step holds
  cases step with | act act enabled allowed =>
  exact each s act enabled allowed holds

end Standing
end AvianCore.Quic
